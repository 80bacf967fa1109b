/-
Decimal numbers: an integer read at a power of ten, and an integer quotient rounded to the
nearest one, ties to even.

Nothing here is about the engine. A fixed-point type keeps a mantissa and a scale; what such a
pair stands for is `decimal`, a rational. Two pairs are compared by bringing both to the larger
scale, and a pair without trailing zeros is the only one of its number. A quotient is rounded
by cutting it off and looking at what was cut, and `NearestEven` says what that has to give.
-/
import Mathlib.Algebra.Order.Field.Rat
import Mathlib.Algebra.Order.Ring.Int
import Mathlib.Data.Rat.Cast.Order
import Mathlib.Order.Compare
import Mathlib.Tactic.FieldSimp
import Mathlib.Tactic.Linarith
import Mathlib.Tactic.Positivity
import Mathlib.Tactic.Ring

set_option autoImplicit false

namespace Scharnhorst.Decimal

/-! ## Numbers at a scale -/

/-- The number that an integer stands for, with so many digits after the point. -/
def decimal (m : Int) (scale : Nat) : ℚ := m / 10 ^ scale

@[simp] theorem decimal_zero (s : Nat) : decimal 0 s = 0 := by
  simp [decimal]

@[simp] theorem decimal_eq_zero {m : Int} {s : Nat} : decimal m s = 0 ↔ m = 0 := by
  simp [decimal]

theorem decimal_add (m n : Int) (s : Nat) : decimal (m + n) s = decimal m s + decimal n s := by
  simp [decimal, add_div]

theorem decimal_sub (m n : Int) (s : Nat) : decimal (m - n) s = decimal m s - decimal n s := by
  simp [decimal, sub_div]

theorem decimal_neg (m : Int) (s : Nat) : decimal (-m) s = -decimal m s := by
  simp [decimal, neg_div]

/-- Digits can be added after the point. -/
theorem decimal_shift (m : Int) (s k : Nat) : decimal (m * 10 ^ k) (s + k) = decimal m s := by
  unfold decimal
  push_cast
  rw [pow_add]
  field_simp

theorem decimal_lt_decimal {m n : Int} {s : Nat} : decimal m s < decimal n s ↔ m < n := by
  unfold decimal
  rw [div_lt_div_iff_of_pos_right (by positivity), Int.cast_lt]

theorem decimal_inj {m n : Int} {s : Nat} : decimal m s = decimal n s ↔ m = n := by
  unfold decimal
  rw [div_left_inj' (by positivity), Int.cast_inj]

/-- At one scale the mantissas are compared. -/
theorem compare_same (m n : Int) (s : Nat) :
    compare (decimal m s) (decimal n s) = compare m n := by
  rcases lt_trichotomy m n with hlt | heq | hgt
  · rw [compare_lt_iff_lt.2 hlt, compare_lt_iff_lt.2 (decimal_lt_decimal.2 hlt)]
  · rw [heq, compare_eq_iff_eq.2 rfl, compare_eq_iff_eq.2 rfl]
  · rw [compare_gt_iff_gt.2 hgt, compare_gt_iff_gt.2 (decimal_lt_decimal.2 hgt)]

/-- At two scales the mantissa of the smaller one is scaled up. -/
theorem compare_left (m n : Int) (s k : Nat) :
    compare (decimal m s) (decimal n (s + k)) = compare (m * 10 ^ k) n := by
  rw [← decimal_shift m s k, compare_same]

theorem decimal_eq_iff {m n : Int} {s k : Nat} :
    decimal m s = decimal n (s + k) ↔ m * 10 ^ k = n := by
  rw [← decimal_shift m s k, decimal_inj]

/-- Other than zero, a number changes with its scale. -/
theorem scale_unique {m : Int} {s t : Nat} (hm : m ≠ 0) (h : decimal m s = decimal m t) : s = t := by
  wlog hle : s ≤ t generalizing s t
  · exact (this h.symm (Nat.le_of_not_le hle)).symm
  obtain ⟨k, rfl⟩ := Nat.exists_eq_add_of_le hle
  have hpow : m * 10 ^ k = m * 1 := by rw [decimal_eq_iff.1 h, mul_one]
  have hone := mul_left_cancel₀ hm hpow
  by_contra hne
  have hgt : (1 : Int) < 10 ^ k := one_lt_pow₀ (by decide) (by omega)
  omega

/-- A pair that cannot lose a digit after the point. -/
def Stripped (m : Int) (s : Nat) : Prop := s = 0 ∨ ¬ (10 : Int) ∣ m

/-- A number is written without trailing zeros in one way. -/
theorem Stripped.unique {m n : Int} {s t : Nat} (hm : Stripped m s) (hn : Stripped n t)
    (h : decimal m s = decimal n t) : m = n ∧ s = t := by
  wlog hle : s ≤ t generalizing m n s t
  · obtain ⟨hmn, hst⟩ := this hn hm h.symm (Nat.le_of_not_le hle)
    exact ⟨hmn.symm, hst.symm⟩
  obtain ⟨k, rfl⟩ := Nat.exists_eq_add_of_le hle
  have heq := decimal_eq_iff.1 h
  rcases k with _ | k
  · exact ⟨by simpa using heq, rfl⟩
  -- the longer of the two ends in a zero
  exfalso
  rcases hn with hzero | hlast
  · omega
  · refine hlast ⟨m * 10 ^ k, ?_⟩
    rw [← heq, pow_succ]
    ring

/-! ## Rounding to nearest, ties to even -/

/-- `r` is the integer nearest to `a / d`, and the even one if there are two. -/
structure NearestEven (a d r : Int) : Prop where
  near : 2 * |a - r * d| ≤ d
  tie : 2 * |a - r * d| = d → 2 ∣ r

namespace NearestEven

variable {a b d r r' : Int}

/-- The two bounds of a rounded quotient. -/
theorem bounds (h : NearestEven a d r) : 2 * (r * d) - d ≤ 2 * a ∧ 2 * a ≤ 2 * (r * d) + d := by
  have hnear := h.near
  obtain ⟨hlow, hhigh⟩ := abs_le.1 (show |a - r * d| ≤ |a - r * d| from le_rfl)
  constructor <;> linarith

theorem mono (hd : 0 < d) (ha : NearestEven a d r) (hb : NearestEven b d r') (hle : a ≤ b) :
    r ≤ r' := by
  by_contra hgt
  have hstep : r' + 1 ≤ r := by omega
  have hmul : (r' + 1) * d ≤ r * d := mul_le_mul_of_nonneg_right hstep hd.le
  have hexpand : (r' + 1) * d = r' * d + d := by ring
  have hlow := ha.bounds.1
  have hhigh := hb.bounds.2
  -- both stand halfway between the two results, which are neighbours
  have hsame : r * d = r' * d + d := by linarith
  have hnext : r = r' + 1 := by
    have hcancel : r * d = (r' + 1) * d := by rw [hexpand, hsame]
    exact mul_right_cancel₀ hd.ne' hcancel
  have htie : 2 ∣ r := by
    refine ha.tie ?_
    rw [abs_of_nonpos (by linarith)]
    linarith
  have htie' : 2 ∣ r' := by
    refine hb.tie ?_
    rw [abs_of_nonneg (by linarith)]
    linarith
  omega

theorem unique (hd : 0 < d) (h : NearestEven a d r) (h' : NearestEven a d r') : r = r' :=
  le_antisymm (h.mono hd h' le_rfl) (h'.mono hd h le_rfl)

/-- A multiple is its own quotient. -/
theorem of_mul (hd : 0 < d) (r : Int) : NearestEven (r * d) d r where
  near := by simp [hd.le]
  tie h := by
    rw [sub_self, abs_zero, mul_zero] at h
    exact absurd h hd.ne

end NearestEven

/-- The quotient cut off towards zero, moved away from it if more than half was cut, or half
and the quotient is odd. -/
def round_tdiv (a d : Int) : Int :=
  if d < 2 * |a.tmod d| ∨ (2 * |a.tmod d| = d ∧ ¬ 2 ∣ a.tdiv d) then
    if 0 ≤ a then a.tdiv d + 1 else a.tdiv d - 1
  else a.tdiv d

/-- What is cut off is shorter than the divisor, and of the sign of the dividend. -/
theorem tmod_bounds {a d : Int} (hd : 0 < d) :
    (0 ≤ a → 0 ≤ a.tmod d ∧ a.tmod d < d) ∧ (a < 0 → -d < a.tmod d ∧ a.tmod d ≤ 0) := by
  constructor
  · intro ha
    exact ⟨Int.tmod_nonneg d ha, Int.tmod_lt_of_pos a hd⟩
  · intro ha
    have hneg : a.tmod d = -((-a).tmod d) := by rw [Int.neg_tmod, neg_neg]
    have hlow := Int.tmod_nonneg d (show 0 ≤ -a by omega)
    have hhigh := Int.tmod_lt_of_pos (-a) hd
    rw [hneg]
    omega

theorem nearestEven_round_tdiv {a d : Int} (hd : 0 < d) : NearestEven a d (round_tdiv a d) := by
  have hdiv := Int.mul_tdiv_add_tmod a d
  obtain ⟨hpos, hneg⟩ := tmod_bounds (a := a) hd
  unfold round_tdiv
  generalize a.tdiv d = q at *
  generalize a.tmod d = c at *
  have hcut : a - q * d = c := by rw [← hdiv]; ring
  have hup : a - (q + 1) * d = c - d := by rw [← hcut]; ring
  have hdown : a - (q - 1) * d = c + d := by rw [← hcut]; ring
  by_cases ha : 0 ≤ a
  · obtain ⟨hlow, hhigh⟩ := hpos ha
    rw [abs_of_nonneg hlow, if_pos ha]
    split
    · rename_i haway
      constructor
      · rw [hup, abs_of_nonpos (by omega)]
        omega
      · intro htie
        rw [hup, abs_of_nonpos (by omega)] at htie
        omega
    · rename_i hstay
      constructor
      · rw [hcut, abs_of_nonneg hlow]
        omega
      · intro htie
        rw [hcut, abs_of_nonneg hlow] at htie
        omega
  · obtain ⟨hlow, hhigh⟩ := hneg (by omega)
    rw [abs_of_nonpos hhigh, if_neg ha]
    split
    · rename_i haway
      constructor
      · rw [hdown, abs_of_nonneg (by omega)]
        omega
      · intro htie
        rw [hdown, abs_of_nonneg (by omega)] at htie
        omega
    · rename_i hstay
      constructor
      · rw [hcut, abs_of_nonpos hhigh]
        omega
      · intro htie
        rw [hcut, abs_of_nonpos hhigh] at htie
        omega

end Scharnhorst.Decimal
