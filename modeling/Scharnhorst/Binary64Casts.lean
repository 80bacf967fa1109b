/-
Signed integers in binary64, and back.

Nothing here is about the engine. An integer of up to 53 bits is a float; a longer one becomes the
nearest float, ties to even. `nearest` is that float's value, as a natural number. The model of
binary64 is followed through a conversion, a division by one, a comparison and a cast back, and
each of them keeps the value: whatever is lost is lost by the conversion, and `nearest_eq_iff` says
when that is nothing.
-/
import Scharnhorst.Binary64
import Mathlib

set_option autoImplicit false

namespace Scharnhorst.Binary64

open Float.Model Float.Model.UnpackedFloat

/-! ## The nearest float -/

/-- The value of the float that is nearest to a natural number. -/
def nearest (n : Nat) : Nat :=
  if n.log2 ≤ 52 then n else round_shift n (n.log2 - 53) * 2 ^ (n.log2 - 52)

theorem nearest_short {n : Nat} (h : n.log2 ≤ 52) : nearest n = n := if_pos h

theorem nearest_long {n k : Nat} (h : n.log2 = 53 + k) :
    nearest n = round_shift n k * 2 ^ (k + 1) := by
  have hk : n.log2 - 53 = k := by omega
  have hk' : n.log2 - 52 = k + 1 := by omega
  rw [nearest, if_neg (by omega), hk, hk']

/-- Nothing is lost exactly if the bits after the first 53 are not set. -/
theorem nearest_eq_iff {n : Nat} : nearest n = n ↔ 2 ^ (n.log2 - 52) ∣ n := by
  by_cases hshort : n.log2 ≤ 52
  · have hzero : n.log2 - 52 = 0 := by omega
    rw [nearest_short hshort, hzero, pow_zero]
    exact iff_of_true rfl (one_dvd n)
  · obtain ⟨k, hk⟩ : ∃ k, n.log2 = 53 + k := ⟨n.log2 - 53, by omega⟩
    have hexp : n.log2 - 52 = k + 1 := by omega
    rw [nearest_long hk, hexp]
    constructor
    · intro h
      exact ⟨round_shift n k, by rw [mul_comm]; exact h.symm⟩
    · intro h
      have hmod : n % 2 ^ (k + 1) = 0 := Nat.mod_eq_zero_of_dvd h
      have hpos : 0 < 2 ^ k := Nat.two_pow_pos k
      rw [round_shift, hmod, if_neg (by omega)]
      exact Nat.div_mul_cancel h

/-- `2^63` is a float, so nothing below it is rounded past it. -/
theorem nearest_le {n : Nat} (hn : n ≤ 2 ^ 63) : nearest n ≤ 2 ^ 63 := by
  rcases Nat.lt_or_ge n (2 ^ 63) with hlt | hge
  · by_cases hshort : n.log2 ≤ 52
    · rw [nearest_short hshort]
      exact hn
    · obtain ⟨k, hk⟩ : ∃ k, n.log2 = 53 + k := ⟨n.log2 - 53, by omega⟩
      have hpos : 0 < n := by
        rcases Nat.eq_zero_or_pos n with rfl | hpos
        · exact absurd (by decide) hshort
        · exact hpos
      have hlog : n.log2 < 63 := (Nat.log2_lt (by omega)).2 hlt
      rw [nearest_long hk]
      calc round_shift n k * 2 ^ (k + 1) ≤ 2 ^ 53 * 2 ^ (k + 1) :=
            Nat.mul_le_mul_right _ (round_shift_long hpos hk).2
        _ = 2 ^ (53 + (k + 1)) := (pow_add 2 53 (k + 1)).symm
        _ ≤ 2 ^ 63 := Nat.pow_le_pow_right (by decide) (by omega)
  · have heq : n = 2 ^ 63 := by omega
    rw [heq]
    decide

/-! ## Rounding -/

theorem round_normal {s : Sign} {m : Nat} {e : Int} (hlow : 2 ^ 52 ≤ m) (hhigh : m < 2 ^ 53)
    (hmin : -1074 ≤ e) :
    roundWithAccuracy Format.binary64 s m e .exact = .finite s m e (by omega) := by
  have hpos : m ≠ 0 := by omega
  have hrounded : (ExtendedMantissa.mk m false false).roundedMantissa = m := rfl
  unfold roundWithAccuracy
  simp only [shift_normal hlow hhigh hmin, hrounded, dif_neg hpos]

/-! ## Integers -/

/-- The float of this mantissa and exponent is the positive integer `i`. -/
structure Normal (m : Nat) (e : Int) (i : Nat) : Prop where
  low : 2 ^ 52 ≤ m
  high : m < 2 ^ 53
  exponent : -52 ≤ e
  value : m * 2 ^ (e + 52).toNat = i * 2 ^ 52

/-- A positive integer is rounded to the nearest float. -/
theorem round_nearest {s : Sign} {n : Nat} (hpos : 0 < n) :
    ∃ m e h, UnpackedFloat.round Format.binary64 s n 0 = .finite s m e h
      ∧ Normal m e (nearest n) := by
  have htarget : Format.binary64.targetExponent (totalExponent n 0) = (n.log2 : Int) - 52 := by
    rw [totalExponent]
    change max ((n.log2 : Int) + 1 + 0 - ((53 : Nat) : Int)) (-1074) = _
    omega
  unfold UnpackedFloat.round
  rw [htarget]
  by_cases hshort : n.log2 ≤ 52
  · -- the mantissa is filled up with zeros
    obtain ⟨hlow, hhigh⟩ := log2_bounds hpos rfl
    obtain ⟨j, hj⟩ : ∃ j, n.log2 + j = 52 := ⟨52 - n.log2, by omega⟩
    have hamount : (0 - ((n.log2 : Int) - 52)).toNat = j := by omega
    have hexp : (0 : Int) - (j : Int) = (n.log2 : Int) - 52 := by omega
    have hlow' : 2 ^ 52 ≤ n * 2 ^ j := by
      rw [← hj, pow_add]
      exact Nat.mul_le_mul_right _ hlow
    have hhigh' : n * 2 ^ j < 2 ^ 53 := by
      have hsum : 53 = n.log2 + 1 + j := by omega
      rw [hsum, pow_add]
      exact Nat.mul_lt_mul_of_pos_right hhigh (Nat.two_pow_pos j)
    have hvalue : n * 2 ^ j * 2 ^ ((n.log2 : Int) - 52 + 52).toNat = n * 2 ^ 52 := by
      have hlog : ((n.log2 : Int) - 52 + 52).toNat = n.log2 := by omega
      rw [hlog, mul_assoc, ← pow_add, add_comm j, hj]
    refine ⟨n * 2 ^ j, (n.log2 : Int) - 52, by omega, ?_, ?_⟩
    · unfold decreaseExponent
      simp only [hamount, hexp, Nat.shiftLeft_eq]
      exact round_normal hlow' hhigh' (by omega)
    · rw [nearest_short hshort]
      exact ⟨hlow', hhigh', by omega, hvalue⟩
  · obtain ⟨k, hk⟩ : ∃ k, n.log2 = 53 + k := ⟨n.log2 - 53, by omega⟩
    have hamount : (0 - ((n.log2 : Int) - 52)).toNat = 0 := by omega
    obtain ⟨hlow, hhigh⟩ := round_shift_long hpos hk
    obtain ⟨h, h', hround⟩ := round_long (s := s) hpos hk (e := 0) (by decide)
    have hvalue : ∀ d : Nat, (0 + ((d : Nat) : Int) + 52).toNat = d + 52 := by
      intro d
      omega
    unfold decreaseExponent
    simp only [hamount, Nat.shiftLeft_zero, Int.natCast_zero, sub_zero, hround, nearest_long hk]
    by_cases hcarry : round_shift n k < 2 ^ 53
    · refine ⟨_, _, h, if_pos hcarry, hlow, hcarry, by omega, ?_⟩
      rw [hvalue, pow_add, mul_assoc]
    · -- the carry has made it a power of two, and the exponent has grown by one more
      have hfull : round_shift n k = 2 ^ 53 := by omega
      refine ⟨_, _, h', if_neg hcarry, by decide, by decide, by omega, ?_⟩
      have hexp : (0 + ((k + 1 : Nat) : Int) + 1 + 52).toNat = k + 1 + 53 := by omega
      rw [hfull, hexp, pow_add 2 (k + 1) 53]
      omega

namespace Normal

variable {m i : Nat} {e : Int} {s : Sign}

/-- An integer of at most 63 bits, or `2^63`. -/
theorem exponent_le (h : Normal m e i) (hi : i ≤ 2 ^ 63) : e < 11 ∨ e = 11 ∧ m = 2 ^ 52 := by
  have hlow := h.low
  have hexp := h.exponent
  have hbound : m * 2 ^ (e + 52).toNat ≤ 2 ^ 115 := by
    rw [h.value]
    exact Nat.mul_le_mul_right (2 ^ 52) hi
  -- the mantissa is `2 ^ 52` at least
  have hpow : 2 ^ (52 + (e + 52).toNat) ≤ 2 ^ 115 := by
    rw [pow_add]
    exact (Nat.mul_le_mul_right _ hlow).trans hbound
  have hle := (Nat.pow_le_pow_iff_right (by decide)).1 hpow
  rcases lt_or_ge e 11 with hlt | hge
  · exact .inl hlt
  · have heq : e = 11 := by omega
    subst heq
    change m * 2 ^ 63 ≤ 2 ^ 115 at hbound
    exact .inr ⟨rfl, by omega⟩

/-- The cast truncates, and there is nothing to truncate. -/
theorem roundToInt_eq (h : Normal m e i) : roundToInt s m e = s.apply i := by
  have hvalue := h.value
  have hexp := h.exponent
  unfold roundToInt decreaseExponent shiftToExponent
  rcases lt_or_ge 0 e with hpos | hneg
  · obtain ⟨d, rfl⟩ : ∃ d : Nat, e = d := ⟨e.toNat, by omega⟩
    have hup : ((d : Int) - 0).toNat = d := by omega
    have hdown : (0 - ((d : Int) - (d : Int))).toNat = 0 := by omega
    have hsum : ((d : Int) + 52).toNat = d + 52 := by omega
    have hmul : m <<< d = i := by
      rw [hsum, pow_add, ← mul_assoc] at hvalue
      rw [Nat.shiftLeft_eq]
      exact Nat.eq_of_mul_eq_mul_right (Nat.two_pow_pos 52) hvalue
    simp only [hup, hdown, hmul]
    rfl
  · obtain ⟨d, hd⟩ : ∃ d : Nat, e = -(d : Int) := ⟨(-e).toNat, by omega⟩
    subst hd
    have hup : (-(d : Int) - 0).toNat = 0 := by omega
    have hdown : (0 - (-(d : Int) - ((0 : Nat) : Int))).toNat = d := by omega
    have hdiv : m / 2 ^ d = i := by
      have hsum : (-(d : Int) + 52).toNat + d = 52 := by omega
      rw [← hsum, pow_add, mul_comm (2 ^ _) (2 ^ d), ← mul_assoc] at hvalue
      rw [Nat.eq_of_mul_eq_mul_right (Nat.two_pow_pos _) hvalue]
      exact Nat.mul_div_cancel i (Nat.two_pow_pos d)
    have hshift : (ExtendedMantissa.ofMantissaAndAccuracy m .exact >>> d).mantissa = m / 2 ^ d := by
      rcases d with _ | d
      · exact (Nat.div_one m).symm
      · exact congrArg ExtendedMantissa.mantissa (shift_right m d)
    simp only [hup, hdown, Nat.shiftLeft_zero]
    rw [hshift, hdiv]

theorem toInt64_eq (h : Normal m e i) {hpos : 0 < m} :
    (UnpackedFloat.finite s m e hpos).toInt64 = Int64.ofIntClamp (s.apply i) :=
  congrArg Int64.ofIntClamp h.roundToInt_eq

/-- Between the bounds of the signed integers, the upper one rounded up. -/
theorem within (h : Normal m e i) (hi : i ≤ 2 ^ 63) {hpos : 0 < m} :
    (UnpackedFloat.finite .negative (2 ^ 52) 11 (by decide)).le (.finite s m e hpos) = true
      ∧ (UnpackedFloat.finite s m e hpos).le two_pow_63 = true := by
  have hcases := h.exponent_le hi
  cases s with
  | positive =>
    refine ⟨rfl, ?_⟩
    change ((compare e 11).then (compare m (2 ^ 52))).isLE = true
    rcases hcases with hlt | ⟨rfl, rfl⟩
    · rw [compare_lt_iff_lt.2 hlt]
      rfl
    · rfl
  | negative =>
    refine ⟨?_, rfl⟩
    change ((compare 11 e).then (compare (2 ^ 52) m)).swap.isLE = true
    rcases hcases with hlt | ⟨rfl, rfl⟩
    · rw [compare_gt_iff_gt.2 hlt]
      rfl
    · rfl

theorem unpack_pack (h : Normal m e i) (hi : i ≤ 2 ^ 63) {hpos : 0 < m} :
    (Float.Model.pack (.finite s m e hpos)).unpack = .finite s m e hpos := by
  have hexp := h.exponent
  have hcases := h.exponent_le hi
  have hmin : -1074 ≤ e := by omega
  have hmax : e ≤ 971 := by
    rcases hcases with hlt | ⟨heq, -⟩ <;> omega
  exact unpack_pack_normal h.low h.high hmin hmax hpos

end Normal

/-! ## Dividing by one -/

theorem two_pow_52_pos : 0 < 2 ^ 52 := by decide

/-- `1.0`, as the model unpacks it. -/
def one : UnpackedFloat := .finite .positive (2 ^ 52) (-52) two_pow_52_pos

theorem round_shift_double (m : Nat) : round_shift (m * 2) 0 = m := by
  unfold round_shift
  split <;> omega

/-- The quotient has one bit more than the mantissa, and it is not set. -/
theorem div_one {s : Sign} {m i : Nat} {e : Int} (h : Normal m e i) {hpos : 0 < m} :
    UnpackedFloat.div Format.binary64 (.finite s m e hpos) one = .finite s m e hpos := by
  have hlow := h.low
  have hhigh := h.high
  have hexp := h.exponent
  have hlog := log2_normal hlow hhigh
  have hlog' : (m * 2).log2 = 53 + 0 := by
    rw [Nat.log2_eq_iff (by omega)]
    exact ⟨by omega, by omega⟩
  have htarget : min (e - -52) (Format.binary64.targetExponent
      (totalExponent m e - totalExponent (2 ^ 52) (-52))) = e - 1 := by
    have hone : totalExponent (2 ^ 52) (-52) = 1 := by decide
    rw [hone, totalExponent, hlog]
    change min _ (max (((52 : Nat) : Int) + 1 + e - 1 - ((53 : Nat) : Int)) (-1074)) = _
    omega
  have hamount : (e - -52 - (e - 1)).toNat = 53 := by omega
  have hquot : m <<< 53 / 2 ^ 52 = m * 2 := by
    rw [Nat.shiftLeft_eq]
    omega
  have hrem : m <<< 53 % 2 ^ 52 = 0 := by
    rw [Nat.shiftLeft_eq]
    omega
  have hcore : divCore Format.binary64 m e (2 ^ 52) (-52) = (m * 2, e - 1, .exact) := by
    unfold divCore
    simp only [htarget, hamount, hquot, hrem]
    rfl
  have hsign : s / .positive = s := by cases s <;> rfl
  have hback : e - 1 + ((0 + 1 : Nat) : Int) = e := by omega
  obtain ⟨h₁, h₂, hround⟩ := round_long (s := s) (by omega) hlog' (e := e - 1) (by omega)
  change roundWithAccuracy Format.binary64 (s / .positive) (divCore Format.binary64 m e _ _).1
    (divCore Format.binary64 m e _ _).2.1 (divCore Format.binary64 m e _ _).2.2 = _
  rw [hcore, hsign, hround]
  simp only [round_shift_double, hback, if_pos hhigh]

/-! ## Casts of signed integers -/

def sign_of (i : Int) : Sign := if i < 0 then .negative else .positive

theorem ofInt_eq_round {i : Int} (hi : i ≠ 0) :
    UnpackedFloat.ofInt Format.binary64 i
      = UnpackedFloat.round Format.binary64 (sign_of i) i.natAbs 0 := by
  unfold UnpackedFloat.ofInt UnpackedFloat.normalize sign_of
  rcases lt_or_gt_of_ne hi with hneg | hpos
  · have habs : (-i).toNat = i.natAbs := by omega
    rw [compare_lt_iff_lt.2 hneg, if_pos hneg, habs]
  · have habs : i.toNat = i.natAbs := by omega
    rw [compare_gt_iff_gt.2 hpos, if_neg (by omega), habs]

/-- A signed integer other than zero as a float. -/
theorem unpack_ofInt {i : Int} (hi : i ≠ 0) (hsmall : i.natAbs ≤ 2 ^ 63) :
    ∃ m e h, (Float.Model.pack (UnpackedFloat.ofInt Format.binary64 i)).unpack
        = .finite (sign_of i) m e h
      ∧ Normal m e (nearest i.natAbs) := by
  obtain ⟨m, e, h, hround, hnormal⟩ := round_nearest (s := sign_of i) (n := i.natAbs) (by omega)
  refine ⟨m, e, h, ?_, hnormal⟩
  rw [ofInt_eq_round hi, hround]
  exact hnormal.unpack_pack (nearest_le hsmall)

theorem toInt_ofIntClamp {i : Int} (hlow : -2 ^ 63 ≤ i) (hhigh : i < 2 ^ 63) :
    (Int64.ofIntClamp i).toInt = i := by
  have hmax : Int64.maxValue.toInt = 2 ^ 63 - 1 := by decide
  have hmin : Int64.minValue.toInt = -2 ^ 63 := by decide
  exact Int64.toInt_ofIntClamp (by omega) (by omega)

/-- The nearest float, cast back, is the integer itself if nothing was lost. It is so too if the
integer is the greatest: that is rounded to `2^63`, and the cast saturates. -/
theorem cast_back_eq_iff {v : Int64} :
    Int64.ofIntClamp ((sign_of v.toInt).apply (nearest v.toInt.natAbs)) = v ↔
      2 ^ (v.toInt.natAbs.log2 - 52) ∣ v.toInt.natAbs ∨ v = Int64.maxValue := by
  have hmax : Int64.maxValue.toInt = 2 ^ 63 - 1 := by decide
  have hlow : -2 ^ 63 ≤ v.toInt := v.le_toInt
  have hhigh : v.toInt < 2 ^ 63 := v.toInt_lt
  have hnearest := nearest_le (n := v.toInt.natAbs) (by omega)
  rw [← nearest_eq_iff]
  generalize hw : nearest v.toInt.natAbs = w at *
  unfold sign_of
  by_cases hneg : v.toInt < 0
  · rw [if_pos hneg]
    change Int64.ofIntClamp (-(w : Int)) = v ↔ _
    rw [← Int64.toInt_inj, toInt_ofIntClamp (by omega) (by omega), ← Int64.toInt_inj]
    omega
  · rw [if_neg hneg]
    change Int64.ofIntClamp (w : Int) = v ↔ _
    rcases Nat.lt_or_ge w (2 ^ 63) with hlt | hge
    · rw [← Int64.toInt_inj, toInt_ofIntClamp (by omega) (by omega)]
      constructor
      · intro h
        left
        omega
      · rintro (h | rfl)
        · omega
        · -- the greatest integer is rounded up
          rw [hmax] at hw
          have hround : nearest (2 ^ 63 - 1) = 2 ^ 63 := by decide
          have heq : w = 2 ^ 63 := hw.symm.trans hround
          omega
    · rw [ofIntClamp_above (by omega)]
      constructor
      · intro h
        exact .inr h.symm
      · rintro (h | rfl)
        · omega
        · rfl

end Scharnhorst.Binary64
