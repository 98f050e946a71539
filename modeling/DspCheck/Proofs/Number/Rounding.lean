import Mathlib.Algebra.Order.Field.Basic
import Mathlib.Algebra.Order.Field.Rat
import Mathlib.Algebra.Order.Ring.Abs
import Mathlib.Tactic.Linarith
import Mathlib.Tactic.Ring
import DspCheck.Number.Binary64

/-!
# Rounding to the nearest number

A natural number is *representable* if it is a significand of 53 binary digits times a power of two.
In units of `2⁻¹⁰⁷⁴` these are the finite numbers of the format, and with them those that the format
would have if exponents had no upper bound.  A fraction is rounded to the nearest of them, and to
the one with an even significand if two are equally near (`IsRounded`); what is rounded to 2 to the
power of 1024 or more becomes infinite (`IsNearest`).

Rounding is a monotone function (`IsNearest.unique`, `IsNearest.not_less`), and `ofRatio` computes
it (`isNearest_ofRatio`).
-/

namespace DspCheck
namespace Binary64

/-- A number is a significand times a power of two; the significand has all its digits unless the
power is the least one. -/
structure HasSignificand (m k u : Nat) : Prop where
  eq : u = m * 2 ^ k
  lt : m < 2 ^ 53
  normal : k = 0 ∨ 2 ^ 52 ≤ m

/-- A number of units that is a number of the format, or would be one without an upper bound for
exponents. -/
def IsRepresentable (u : Nat) : Prop :=
  ∃ m k, HasSignificand m k u

/-- A number whose last digit is a zero. -/
def IsEven (u : Nat) : Prop :=
  ∃ m k, HasSignificand m k u ∧ Even m

/-- A number is the nearest one to a fraction; of two, the even one. -/
structure IsRounded (x : ℚ) (u : Nat) : Prop where
  representable : IsRepresentable u
  nearest : ∀ v, IsRepresentable v → |x - u| ≤ |x - v|
  even : ∀ v, IsRepresentable v → v ≠ u → |x - u| = |x - v| → IsEven u

/-- The least number of units that is too large for the format. -/
@[irreducible] def tooLarge : Nat :=
  Nat.pow 2 overflowBits

/-- The number with some units, or infinity if they are too many. -/
def ofUnits (u : Nat) : Binary64 :=
  if u < tooLarge then finite u else infinite

/-- A number of the format is the one that a fraction is rounded to. -/
def IsNearest (x : ℚ) (a : Binary64) : Prop :=
  ∃ u, IsRounded (x * 2 ^ unitBits) u ∧ a = ofUnits u

/-! ## Representable numbers -/

variable {m k u v : Nat}

/-- Of a significand that has become too long only a power of two is left. -/
theorem isRepresentable_mul (hle : m ≤ 2 ^ 53) (hnormal : k = 0 ∨ 2 ^ 52 ≤ m) :
    IsRepresentable (m * 2 ^ k) := by
  rcases Nat.lt_or_eq_of_le hle with hlt | rfl
  · exact ⟨m, k, rfl, hlt, hnormal⟩
  · exact ⟨2 ^ 52, k + 1, by ring, by decide, Or.inr le_rfl⟩

theorem isEven_mul (hle : m ≤ 2 ^ 53) (hnormal : k = 0 ∨ 2 ^ 52 ≤ m) (heven : Even m) :
    IsEven (m * 2 ^ k) := by
  rcases Nat.lt_or_eq_of_le hle with hlt | rfl
  · exact ⟨m, k, ⟨rfl, hlt, hnormal⟩, heven⟩
  · exact ⟨2 ^ 52, k + 1, ⟨by ring, by decide, Or.inr le_rfl⟩, by decide⟩

/-- Numbers with 52 digits or more in front of some place have no digits behind it. -/
theorem IsRepresentable.lt_or_dvd (h : IsRepresentable v) (k : Nat) :
    k ≠ 0 ∧ v < 2 ^ 52 * 2 ^ k ∨ ∃ t, v = t * 2 ^ k := by
  obtain ⟨m, j, rfl, hlt, -⟩ := h
  rcases Nat.lt_or_ge j k with hjk | hkj
  · refine Or.inl ⟨by omega, ?_⟩
    calc m * 2 ^ j
      _ < 2 ^ 53 * 2 ^ j := Nat.mul_lt_mul_of_pos_right hlt (by positivity)
      _ = 2 ^ 52 * 2 ^ (j + 1) := by ring
      _ ≤ 2 ^ 52 * 2 ^ k := Nat.mul_le_mul_left _ (Nat.pow_le_pow_right (by decide) hjk)
  · exact Or.inr ⟨m * 2 ^ (j - k), by rw [mul_assoc, ← pow_add, Nat.sub_add_cancel hkj]⟩

theorem IsRepresentable.mul_two_pow (h : IsRepresentable u) (j : Nat) :
    IsRepresentable (u * 2 ^ j) := by
  induction j with
  | zero =>
      rwa [pow_zero, mul_one]
  | succ j ih =>
      obtain ⟨m, k, heq, hlt, hnormal⟩ := ih
      rw [pow_succ, ← mul_assoc, heq]
      by_cases hm : 2 ^ 52 ≤ m
      · exact ⟨m, k + 1, by ring, hlt, Or.inr hm⟩
      · obtain rfl : k = 0 := hnormal.resolve_right hm
        exact ⟨m * 2, 0, by ring, by omega, Or.inl rfl⟩

/-- The next number has the next significand. -/
theorem HasSignificand.succ_le (hu : HasSignificand m k u) (hv : IsRepresentable v) (huv : u < v) :
    (m + 1) * 2 ^ k ≤ v := by
  rcases hv.lt_or_dvd k with ⟨hk, hlt⟩ | ⟨t, rfl⟩
  · have hle : 2 ^ 52 * 2 ^ k ≤ m * 2 ^ k :=
      Nat.mul_le_mul_right _ (hu.normal.resolve_left hk)
    have heq := hu.eq
    omega
  · refine Nat.mul_le_mul_right _ ?_
    rw [hu.eq] at huv
    exact Nat.lt_of_mul_lt_mul_right huv

/-- The number after an even one is odd. -/
theorem HasSignificand.not_isEven_succ (hu : HasSignificand m k u) (heven : Even m) :
    ¬ IsEven ((m + 1) * 2 ^ k) := by
  rintro ⟨m', j, ⟨heq, hlt, -⟩, heven'⟩
  have hodd : ¬ Even (m + 1) := Nat.not_even_iff_odd.2 heven.add_one
  rcases Nat.lt_or_ge j k with hjk | hkj
  · -- the last digit is behind the place of this significand, which already has all its digits
    have hm : 2 ^ 52 ≤ m := hu.normal.resolve_left (by omega)
    have heq' : m' = (m + 1) * 2 ^ (k - j) := by
      refine Nat.eq_of_mul_eq_mul_right (show 0 < 2 ^ j by positivity) ?_
      rw [← heq, mul_assoc, ← pow_add, Nat.sub_add_cancel hjk.le]
    have htwo : 2 ≤ 2 ^ (k - j) := Nat.le_self_pow (by omega) 2
    have hle : (m + 1) * 2 ≤ m' := heq' ▸ Nat.mul_le_mul_left _ htwo
    omega
  · have heq' : m + 1 = m' * 2 ^ (j - k) := by
      refine Nat.eq_of_mul_eq_mul_right (show 0 < 2 ^ k by positivity) ?_
      rw [heq, mul_assoc, ← pow_add, Nat.sub_add_cancel hkj]
    exact hodd (heq' ▸ heven'.mul_right _)

/-! ## Rounding -/

namespace IsRounded

variable {x y : ℚ}

theorem of_eq (h : IsRepresentable u) : IsRounded u u := by
  refine ⟨h, fun v _ => by simp, fun v _ hne heq => absurd ?_ hne⟩
  rw [sub_self, abs_zero, eq_comm, abs_eq_zero, sub_eq_zero] at heq
  exact_mod_cast heq.symm

/-- A fraction that is rounded to the lower of two numbers is not above their middle. -/
theorem le_middle (hu : IsRounded x u) (hv : IsRepresentable v) (huv : u < v) :
    2 * x ≤ u + v := by
  have hlt : (u : ℚ) < v := by exact_mod_cast huv
  rcases le_abs.1 ((le_abs_self (x - u)).trans (hu.nearest v hv)) with h | h
  · linarith
  · linarith

/-- A fraction that is rounded to the upper of two numbers is not below their middle. -/
theorem middle_le (hv : IsRounded x v) (hu : IsRepresentable u) (huv : u < v) :
    u + v ≤ 2 * x := by
  have hlt : (u : ℚ) < v := by exact_mod_cast huv
  rcases le_abs.1 ((neg_le_abs (x - v)).trans (hv.nearest u hu)) with h | h
  · linarith
  · linarith

/-- No fraction is rounded to two numbers: it would be in their middle and both of them even, but
between even numbers there is an odd one. -/
theorem not_lt (hu : IsRounded x u) (hv : IsRounded x v) : ¬ u < v := by
  intro huv
  have hmiddle : 2 * x = u + v :=
    le_antisymm (hu.le_middle hv.representable huv) (hv.middle_le hu.representable huv)
  have htie : |x - u| = |x - v| :=
    le_antisymm (hu.nearest v hv.representable) (hv.nearest u hu.representable)
  obtain ⟨m, k, hm, heven⟩ := hu.even v hv.representable huv.ne' htie
  have heven' : IsEven v := hv.even u hu.representable huv.ne htie.symm
  have hnext : u < (m + 1) * 2 ^ k := by
    rw [hm.eq]
    exact Nat.mul_lt_mul_of_pos_right (Nat.lt_succ_self m) (by positivity)
  have hrepresentable : IsRepresentable ((m + 1) * 2 ^ k) :=
    isRepresentable_mul hm.lt (hm.normal.imp_right Nat.le_succ_of_le)
  rcases Nat.lt_or_eq_of_le (hm.succ_le hv.representable huv) with hbetween | heq
  · have hlow := hu.le_middle hrepresentable hnext
    have hlt : (((m + 1) * 2 ^ k : Nat) : ℚ) < v := by exact_mod_cast hbetween
    linarith
  · exact hm.not_isEven_succ heven (heq ▸ heven')

theorem unique (hu : IsRounded x u) (hv : IsRounded x v) : u = v :=
  Nat.le_antisymm (Nat.le_of_not_lt (hv.not_lt hu)) (Nat.le_of_not_lt (hu.not_lt hv))

/-- Rounding is monotone. -/
theorem mono (hu : IsRounded x u) (hv : IsRounded y v) (hxy : x ≤ y) : u ≤ v := by
  by_contra hlt
  have hvu : v < u := Nat.lt_of_not_le hlt
  have hlow := hv.le_middle hu.representable hvu
  have hhigh := hu.middle_le hv.representable hvu
  obtain rfl : x = y := le_antisymm hxy (by linarith)
  exact hlt (hu.unique hv).le

/-- What is near to a multiple of a number is not near to other multiples. -/
theorem le_abs_sub_mul {s : ℚ} (hs : 0 < s) {r t : Nat} (ht : t ≠ r) :
    s - |x - r * s| ≤ |x - t * s| := by
  have hone : (1 : ℚ) ≤ |(r : ℚ) - t| := by
    have hne : (r : ℤ) - t ≠ 0 := by omega
    exact_mod_cast Int.one_le_abs hne
  have hsplit : (x - t * s) - (x - r * s) = (r - t) * s := by ring
  have htriangle := abs_sub (x - t * s) (x - r * s)
  rw [hsplit, abs_mul, abs_of_pos hs] at htriangle
  linarith [le_mul_of_one_le_left hs.le hone]

/-- The multiple of a power of two nearest to a fraction has a significand if the fraction has as
many digits in front of that place as the format keeps. -/
theorem significand_of_near {r : Nat} (hrange : k = 0 ∨ 2 ^ 52 * 2 ^ k ≤ x)
    (hlt : x < 2 ^ 53 * 2 ^ k) (hnear : 2 * |x - r * 2 ^ k| ≤ 2 ^ k) :
    r ≤ 2 ^ 53 ∧ (k = 0 ∨ 2 ^ 52 ≤ r) := by
  have hpos : (0 : ℚ) < 2 ^ k := by positivity
  obtain ⟨hlow, hhigh⟩ := abs_le.1 ((le_div_iff₀' two_pos).2 hnear)
  constructor
  · have hreal : (r : ℚ) * 2 ^ k < (2 ^ 53 + 1) * 2 ^ k := by linarith
    have hcast : (r : ℚ) < (2 ^ 53 + 1 : Nat) := by
      exact_mod_cast lt_of_mul_lt_mul_right hreal hpos.le
    exact Nat.lt_succ_iff.1 (by exact_mod_cast hcast)
  · refine hrange.imp_right fun hx => ?_
    have hreal : (2 ^ 52 : ℚ) * 2 ^ k < (r + 1) * 2 ^ k := by linarith
    have hcast : ((2 ^ 52 : Nat) : ℚ) < (r + 1 : Nat) := by
      exact_mod_cast lt_of_mul_lt_mul_right hreal hpos.le
    exact Nat.lt_succ_iff.1 (by exact_mod_cast hcast)

/-- A multiple of a power of two that is no more than half of it away is what a fraction is rounded
to, if the fraction has as many digits in front of that place as the format keeps. -/
theorem of_nearest_multiple {r : Nat} (hrange : k = 0 ∨ 2 ^ 52 * 2 ^ k ≤ x)
    (hlt : x < 2 ^ 53 * 2 ^ k) (hnear : 2 * |x - r * 2 ^ k| ≤ 2 ^ k)
    (heven : 2 * |x - r * 2 ^ k| = 2 ^ k → Even r) : IsRounded x (r * 2 ^ k) := by
  have hpos : (0 : ℚ) < 2 ^ k := by positivity
  obtain ⟨hle, hnormal⟩ := significand_of_near hrange hlt hnear
  -- numbers with digits behind the place are below the least multiple with all digits
  have hbelow : ∀ v : Nat, k ≠ 0 → v < 2 ^ 52 * 2 ^ k → |x - r * 2 ^ k| < |x - v| := by
    intro v hk hv
    have hx := hrange.resolve_left hk
    have hv' : (v : ℚ) < 2 ^ 52 * 2 ^ k := by exact_mod_cast hv
    have hpower : |x - r * 2 ^ k| ≤ |x - (2 ^ 52 : Nat) * 2 ^ k| := by
      by_cases hr : 2 ^ 52 = r
      · rw [hr]
      · linarith [le_abs_sub_mul (x := x) hpos hr]
    rw [Nat.cast_pow, Nat.cast_ofNat, abs_of_nonneg (sub_nonneg.2 hx)] at hpower
    rw [abs_of_pos (by linarith : 0 < x - v)]
    linarith
  refine ⟨isRepresentable_mul hle hnormal, fun v hv => ?_, fun v hv hne heq => ?_⟩
  · push_cast
    rcases hv.lt_or_dvd k with ⟨hk, hv⟩ | ⟨t, rfl⟩
    · exact (hbelow v hk hv).le
    · push_cast
      by_cases ht : t = r
      · rw [ht]
      · linarith [le_abs_sub_mul (x := x) hpos ht]
  · refine isEven_mul hle hnormal (heven (le_antisymm hnear ?_))
    push_cast at heq
    rcases hv.lt_or_dvd k with ⟨hk, hv⟩ | ⟨t, rfl⟩
    · exact absurd heq (hbelow v hk hv).ne
    · push_cast at heq
      have ht : t ≠ r := fun ht => hne (by rw [ht])
      linarith [le_abs_sub_mul (x := x) hpos ht]

end IsRounded

/-! ## The rounding function -/

/-- The nearest natural number is at most a half away, and even if it is a half. -/
theorem nearestEven_spec (n : Nat) {d : Nat} (hd : 0 < d) :
    2 * (nearestEven n d * d) ≤ 2 * n + d ∧ 2 * n ≤ 2 * (nearestEven n d * d) + d ∧
      (2 * (nearestEven n d * d) = 2 * n + d ∨ 2 * n = 2 * (nearestEven n d * d) + d →
        Even (nearestEven n d)) := by
  have hsplit : n / d * d + n % d = n := Nat.div_add_mod' n d
  have hlt : n % d < d := Nat.mod_lt n hd
  have hnext : (n / d + 1) * d = n / d * d + d := Nat.succ_mul _ _
  rw [nearestEven, Nat.even_iff]
  split_ifs with hbelow habove heven
  · omega
  · rw [hnext]
    omega
  · omega
  · rw [hnext]
    omega

theorem two_mul_abs_sub_nearestEven (n : Nat) {d : Nat} (hd : 0 < d) :
    2 * |(n : ℚ) - nearestEven n d * d| ≤ d ∧
      (2 * |(n : ℚ) - nearestEven n d * d| = d → Even (nearestEven n d)) := by
  obtain ⟨hhigh, hlow, heven⟩ := nearestEven_spec n hd
  have hhigh' : 2 * ((nearestEven n d : ℚ) * d) ≤ 2 * n + d := by exact_mod_cast hhigh
  have hlow' : (2 * n : ℚ) ≤ 2 * (nearestEven n d * d) + d := by exact_mod_cast hlow
  rcases abs_cases ((n : ℚ) - nearestEven n d * d) with ⟨habs, -⟩ | ⟨habs, -⟩
  · rw [habs]
    refine ⟨by linarith, fun h => heven (Or.inr ?_)⟩
    have heq : (2 * n : ℚ) = 2 * (nearestEven n d * d) + d := by linarith
    exact_mod_cast heq
  · rw [habs]
    refine ⟨by linarith, fun h => heven (Or.inl ?_)⟩
    have heq : 2 * ((nearestEven n d : ℚ) * d) = 2 * n + d := by linarith
    exact_mod_cast heq

/-- Without its last digits a natural number has as many digits as the format keeps, or it has lost
none. -/
theorem bounds_of_bitLength {q k : Nat} (hk : bitLength q - precision = k) :
    (k = 0 ∨ 2 ^ 52 * 2 ^ k ≤ q) ∧ q < 2 ^ 53 * 2 ^ k := by
  have hlt : q < 2 ^ bitLength q := by
    rw [bitLength]
    split
    · next h => rw [h]; decide
    · exact Nat.lt_log2_self
  refine ⟨?_, ?_⟩
  · by_cases hzero : k = 0
    · exact Or.inl hzero
    · have hq : q ≠ 0 := by
        rintro rfl
        exact hzero hk.symm
      rw [bitLength, if_neg hq, precision] at hk
      have hlog : 52 + k = q.log2 := by omega
      rw [← pow_add, hlog]
      exact Or.inr (Nat.log2_self_le hq)
  · rw [← pow_add]
    rw [precision] at hk
    exact hlt.trans_le (Nat.pow_le_pow_right (by decide) (by omega))

/-- The units that a fraction is rounded to. -/
theorem isRounded_units (n : Nat) {d k : Nat} (hd : 0 < d)
    (hk : bitLength (n / d) - precision = k) :
    IsRounded (n / d) (nearestEven n (d * 2 ^ k) * 2 ^ k) := by
  have hd' : (0 : ℚ) < d := by exact_mod_cast hd
  obtain ⟨hrange, hlt⟩ := bounds_of_bitLength hk
  obtain ⟨hnear, heven⟩ := two_mul_abs_sub_nearestEven n (d := d * 2 ^ k) (by positivity)
  generalize nearestEven n (d * 2 ^ k) = r at hnear heven ⊢
  have hscale : 2 * |(n : ℚ) - r * (d * 2 ^ k : Nat)| = d * (2 * |(n : ℚ) / d - r * 2 ^ k|) := by
    have hsplit : (n : ℚ) - r * (d * 2 ^ k : Nat) = d * ((n : ℚ) / d - r * 2 ^ k) := by
      push_cast
      rw [mul_sub, mul_div_cancel₀ _ hd'.ne']
      ring
    rw [hsplit, abs_mul, abs_of_pos hd']
    ring
  rw [hscale, Nat.cast_mul, Nat.cast_pow, Nat.cast_ofNat] at hnear heven
  refine .of_nearest_multiple (hrange.imp_right fun hle => ?_) ?_
    (le_of_mul_le_mul_left hnear hd') (fun heq => heven (by rw [heq]))
  · rw [le_div_iff₀ hd']
    exact_mod_cast (Nat.le_div_iff_mul_le hd).1 hle
  · rw [div_lt_iff₀ hd']
    exact_mod_cast (Nat.div_lt_iff_lt_mul hd).1 hlt

theorem ofRatio_eq (n d : Nat) :
    ofRatio n d = ofUnits (nearestEven (n * Nat.pow 2 unitBits)
      (d * Nat.pow 2 (bitLength (n * Nat.pow 2 unitBits / d) - precision)) *
      Nat.pow 2 (bitLength (n * Nat.pow 2 unitBits / d) - precision)) := by
  unfold ofUnits tooLarge
  exact ofRatio.eq_1 n d

/-- Fractions are rounded to the nearest number. -/
theorem isNearest_ofRatio (n : Nat) {d : Nat} (hd : 0 < d) : IsNearest (n / d) (ofRatio n d) := by
  have hunits := isRounded_units (n * 2 ^ unitBits) hd rfl
  rw [Nat.cast_mul, Nat.cast_pow, Nat.cast_ofNat, mul_div_right_comm] at hunits
  refine ⟨_, hunits, ?_⟩
  rw [ofRatio_eq]
  simp only [Nat.pow_eq]

theorem lt_tooLarge {n : Nat} (hn : n ≤ 2 ^ 53) : n * 2 ^ unitBits < tooLarge := by
  unfold tooLarge overflowBits
  rw [Nat.pow_eq, pow_add]
  have hpower : ∀ j, 53 < j → n < 2 ^ j := fun j hj =>
    hn.trans_lt (Nat.pow_lt_pow_right (by decide) hj)
  have hlt := hpower 1024 (by decide)
  gcongr

theorem isRepresentable_two_pow (j : Nat) : IsRepresentable (Nat.pow 2 j) := by
  have hone : IsRepresentable 1 := ⟨1, 0, rfl, by decide, Or.inl rfl⟩
  have hpower := hone.mul_two_pow j
  rwa [one_mul] at hpower

theorem not_less_ofUnits (h : u ≤ v) : (ofUnits v).less (ofUnits u) = false := by
  rw [ofUnits, ofUnits]
  split
  · split
    · exact decide_eq_false (Nat.not_lt.2 h)
    · omega
  · rfl

theorem less_ofUnits (hu : u < tooLarge) (h : u < v) : (ofUnits u).less (ofUnits v) = true := by
  rw [ofUnits, ofUnits, if_pos hu]
  split
  · exact decide_eq_true h
  · rfl

/-- Natural numbers with 53 binary digits are numbers of the format. -/
theorem isRounded_natCast {n : Nat} (hn : n ≤ 2 ^ 53) :
    IsRounded (n * 2 ^ unitBits) (n * 2 ^ unitBits : Nat) := by
  have hrepresentable : IsRepresentable (n * 2 ^ 0) := isRepresentable_mul hn (Or.inl rfl)
  rw [pow_zero, mul_one] at hrepresentable
  have hrounded := IsRounded.of_eq (hrepresentable.mul_two_pow unitBits)
  rwa [Nat.cast_mul, Nat.cast_pow, Nat.cast_ofNat] at hrounded

theorem isNearest_ofNat (n : Nat) : IsNearest n (ofNat n) := by
  have hratio := isNearest_ofRatio n Nat.one_pos
  rwa [Nat.cast_one, div_one] at hratio

/-! ## Rounding as a function -/

namespace IsNearest

variable {x y : ℚ} {a b : Binary64}

theorem unique (ha : IsNearest x a) (hb : IsNearest x b) : a = b := by
  obtain ⟨u, hu, rfl⟩ := ha
  obtain ⟨v, hv, rfl⟩ := hb
  rw [hu.unique hv]

theorem iff_eq (ha : IsNearest x a) (b : Binary64) : IsNearest x b ↔ b = a :=
  ⟨fun hb => hb.unique ha, fun h => h ▸ ha⟩

/-- Rounding is monotone. -/
theorem not_less (ha : IsNearest x a) (hb : IsNearest y b) (hxy : x ≤ y) : b.less a = false := by
  obtain ⟨u, hu, rfl⟩ := ha
  obtain ⟨v, hv, rfl⟩ := hb
  exact not_less_ofUnits (hu.mono hv (mul_le_mul_of_nonneg_right hxy (by positivity)))

/-- Natural numbers that are less than `2 ^ 53` are not rounded, so greater ones stay greater. -/
theorem less_of_lt {m n : Nat} (hm : m < 2 ^ 53) (hmn : m < n) (ha : IsNearest m a)
    (hb : IsNearest n b) : a.less b = true := by
  obtain ⟨u, hu, rfl⟩ := ha
  obtain ⟨v, hv, rfl⟩ := hb
  rw [hu.unique (isRounded_natCast hm.le)]
  have hnext : ((m + 1 : Nat) : ℚ) ≤ n := by exact_mod_cast hmn
  have hle : (m + 1) * 2 ^ unitBits ≤ v :=
    (isRounded_natCast hm).mono hv (mul_le_mul_of_nonneg_right hnext (by positivity))
  have hlt : m * 2 ^ unitBits < (m + 1) * 2 ^ unitBits := by
    rw [Nat.succ_mul]
    exact Nat.lt_add_of_pos_right (by positivity)
  exact less_ofUnits (lt_tooLarge hm.le) (hlt.trans_le hle)

end IsNearest

/-- Every fraction is rounded to one number. -/
theorem exists_nearest {x : ℚ} (hx : 0 ≤ x) : ∃ a, ∀ b, IsNearest x b ↔ b = a := by
  have hratio := isNearest_ofRatio x.num.toNat x.den_pos
  have hnum : (x.num.toNat : ℚ) = x.num := by
    exact_mod_cast Int.toNat_of_nonneg (Rat.num_nonneg.2 hx)
  rw [hnum, Rat.num_div_den] at hratio
  exact ⟨_, hratio.iff_eq⟩

end Binary64
end DspCheck
