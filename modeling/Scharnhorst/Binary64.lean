/-
Large integers in binary64.

Nothing here is about the engine. An integer of 64 bits whose first bit is set has eleven bits
more than a mantissa. Lean's model of binary64 takes them off one by one, remembers the last one
and whether any before it was set, and rounds by that, ties to even. What comes out is written
down here: the rounded mantissa, the float that it becomes, and what a cast back to a signed
integer makes of it.
-/
import Mathlib

set_option autoImplicit false

namespace Scharnhorst.Binary64

open Float.Model Float.Model.UnpackedFloat

/-! ## Shifting -/

/-- After a shift the round bit is the last one that went, and the sticky bit stands for those
before it. -/
theorem shift_right (v k : Nat) :
    (ExtendedMantissa.mk v false false) >>> (k + 1) =
      ⟨v / 2 ^ (k + 1), v / 2 ^ k % 2 != 0, v % 2 ^ k != 0⟩ := by
  induction k with
  | zero =>
    change ExtendedMantissa.shiftRightOne ⟨v, false, false⟩ = _
    simp [ExtendedMantissa.shiftRightOne, Nat.mod_one]
  | succ k ih =>
    change ExtendedMantissa.shiftRightOne (ExtendedMantissa.mk v false false >>> (k + 1)) = _
    rw [ih, ExtendedMantissa.shiftRightOne]
    have hhalf : v / 2 ^ (k + 1) / 2 = v / 2 ^ (k + 1 + 1) := by
      rw [Nat.div_div_eq_div_mul, ← Nat.pow_succ]
    have hsticky : (v / 2 ^ k % 2 != 0 || v % 2 ^ k != 0) = (v % 2 ^ (k + 1) != 0) := by
      rw [Nat.mod_pow_succ, Bool.eq_iff_iff]
      simp only [Bool.or_eq_true, bne_iff_ne]
      have hpos : 0 < 2 ^ k := Nat.two_pow_pos k
      rcases Nat.mod_two_eq_zero_or_one (v / 2 ^ k) with h | h <;> rw [h] <;> omega
    rw [hhalf, hsticky]

/-- Rounded at a power of two, ties to even. -/
def round_shift (v k : Nat) : Nat :=
  if 2 ^ k < v % 2 ^ (k + 1) ∨ v % 2 ^ (k + 1) = 2 ^ k ∧ v / 2 ^ (k + 1) % 2 = 1 then
    v / 2 ^ (k + 1) + 1
  else v / 2 ^ (k + 1)

/-- Up if the last bit that went is set, and either one before it is or the mantissa is odd. -/
theorem rounded_mantissa (m : Nat) (round_bit sticky_bit : Bool) :
    (ExtendedMantissa.mk m round_bit sticky_bit).roundedMantissa =
      if round_bit = true ∧ (sticky_bit = true ∨ m % 2 = 1) then m + 1 else m := by
  rcases Nat.mod_two_eq_zero_or_one m with heven | hodd <;>
    rcases round_bit with _ | _ <;> rcases sticky_bit with _ | _ <;>
    simp [ExtendedMantissa.roundedMantissa, ExtendedMantissa.accuracy,
      Accuracy.roundToNearestEven, *]

theorem rounded_shift (v k : Nat) :
    ((ExtendedMantissa.mk v false false) >>> (k + 1)).roundedMantissa = round_shift v k := by
  have hpos : 0 < 2 ^ k := Nat.two_pow_pos k
  have hsmall := Nat.mod_lt v hpos
  have hsplit := Nat.mod_pow_succ (x := v) (b := 2) (k := k)
  rw [shift_right, rounded_mantissa, round_shift]
  apply if_congr _ rfl rfl
  simp only [bne_iff_ne]
  rcases Nat.mod_two_eq_zero_or_one (v / 2 ^ k) with hround | hround <;>
    rw [hround] at hsplit ⊢ <;> omega

/-! ## Rounding long mantissas -/

theorem log2_bounds {n k : Nat} (hpos : 0 < n) (h : n.log2 = k) : 2 ^ k ≤ n ∧ n < 2 ^ (k + 1) :=
  (Nat.log2_eq_iff (by omega)).1 h

/-- The quotient has 53 bits, and rounding it up may carry to the next power of two. -/
theorem round_shift_long {n k : Nat} (hpos : 0 < n) (h : n.log2 = 53 + k) :
    2 ^ 52 ≤ round_shift n k ∧ round_shift n k ≤ 2 ^ 53 := by
  obtain ⟨hlow, hhigh⟩ := log2_bounds hpos h
  have hunit : 0 < 2 ^ (k + 1) := Nat.two_pow_pos _
  have hquot : 2 ^ 52 ≤ n / 2 ^ (k + 1) := by
    rw [Nat.le_div_iff_mul_le hunit, ← pow_add]
    have hexp : 52 + (k + 1) = 53 + k := by omega
    rwa [hexp]
  have hquot' : n / 2 ^ (k + 1) < 2 ^ 53 := by
    rw [Nat.div_lt_iff_lt_mul hunit, ← pow_add]
    have hexp : 53 + (k + 1) = 53 + k + 1 := by omega
    rwa [hexp]
  unfold round_shift
  split <;> omega

theorem shift_by {m k : Nat} {e : Int}
    (htarget : Format.binary64.targetExponent (totalExponent m e) = e + (k : Nat)) :
    shiftToTargetExponent Format.binary64 m e .exact
      = (ExtendedMantissa.mk m false false >>> k, e + (k : Nat)) := by
  have hamount : (e + (k : Int) - e).toNat = k := by omega
  unfold shiftToTargetExponent shiftToExponent
  simp only [htarget, hamount]
  rfl

/-- A normal mantissa has 53 bits. -/
theorem log2_normal {m : Nat} (hlow : 2 ^ 52 ≤ m) (hhigh : m < 2 ^ 53) : m.log2 = 52 := by
  rw [Nat.log2_eq_iff (by omega)]
  exact ⟨hlow, hhigh⟩

/-- A mantissa of 53 bits stays where it is. -/
theorem shift_normal {m : Nat} {e : Int} (hlow : 2 ^ 52 ≤ m) (hhigh : m < 2 ^ 53)
    (hmin : -1074 ≤ e) :
    shiftToTargetExponent Format.binary64 m e .exact = (⟨m, false, false⟩, e) := by
  have hlog := log2_normal hlow hhigh
  have htarget : Format.binary64.targetExponent (totalExponent m e) = e + (0 : Nat) := by
    rw [totalExponent, hlog]
    change max (((52 : Nat) : Int) + 1 + e - ((53 : Nat) : Int)) (-1074) = _
    omega
  rw [shift_by htarget, Int.natCast_zero, add_zero]
  rfl

/-- A longer mantissa is shifted to 53 bits and rounded. If that carries, one more bit goes. -/
theorem round_long {s : Sign} {n k : Nat} {e : Int} (hpos : 0 < n) (hlog : n.log2 = 53 + k)
    (hmin : -1074 ≤ e) : ∃ h h', roundWithAccuracy Format.binary64 s n e .exact =
      if round_shift n k < 2 ^ 53 then .finite s (round_shift n k) (e + (k + 1 : Nat)) h
      else .finite s (2 ^ 52) (e + (k + 1 : Nat) + 1) h' := by
  obtain ⟨hlow, hhigh⟩ := round_shift_long hpos hlog
  have htarget : Format.binary64.targetExponent (totalExponent n e) = e + (k + 1 : Nat) := by
    rw [totalExponent, hlog]
    change max (((53 + k : Nat) : Int) + 1 + e - ((53 : Nat) : Int)) (-1074) = _
    omega
  refine ⟨by omega, by decide, ?_⟩
  unfold roundWithAccuracy
  rw [shift_by htarget]
  by_cases hshort : round_shift n k < 2 ^ 53
  · have hne : round_shift n k ≠ 0 := by omega
    have hmin' : -1074 ≤ e + ((k + 1 : Nat) : Int) := by omega
    simp only [rounded_shift n k, shift_normal hlow hshort hmin', dif_neg hne, if_pos hshort]
  · have hfull : round_shift n k = 2 ^ 53 := by omega
    have hcarry : shiftToTargetExponent Format.binary64 (2 ^ 53) (e + (k + 1 : Nat)) .exact
        = (ExtendedMantissa.mk (2 ^ 52) false false, e + (k + 1 : Nat) + 1) := by
      have hlog' : (2 ^ 53).log2 = 53 := Nat.log2_two_pow
      have htarget' : Format.binary64.targetExponent (totalExponent (2 ^ 53) (e + (k + 1 : Nat)))
          = e + (k + 1 : Nat) + (1 : Nat) := by
        rw [totalExponent, hlog']
        change max (((53 : Nat) : Int) + 1 + _ - ((53 : Nat) : Int)) (-1074) = _
        omega
      rw [shift_by htarget']
      rfl
    simp only [rounded_shift n k, hfull, hcarry, if_neg (lt_irrefl (2 ^ 53))]
    rfl

/-! ## Integers with their first bit set -/

section Large

variable {v : Nat} (hlow : 2 ^ 63 ≤ v) (hhigh : v < 2 ^ 64)
include hlow hhigh

theorem log2_large : v.log2 = 63 := by
  rw [Nat.log2_eq_iff (by omega)]
  exact ⟨hlow, hhigh⟩

theorem round_shift_bounds : 2 ^ 52 ≤ round_shift v 10 ∧ round_shift v 10 ≤ 2 ^ 53 :=
  round_shift_long (by omega) (log2_large hlow hhigh)

/-- The rounded mantissa at the exponent 11, or half of it at 12 if it is too long. -/
theorem ofNat_large : ∃ h h', UnpackedFloat.ofNat Format.binary64 v =
    if round_shift v 10 < 2 ^ 53 then .finite .positive (round_shift v 10) 11 h
    else .finite .positive (2 ^ 52) 12 h' := by
  have hround : UnpackedFloat.ofNat Format.binary64 v =
      roundWithAccuracy Format.binary64 .positive v 0 .exact := by
    have hcmp : compare (v : Int) 0 = .gt := by
      rw [compare_gt_iff_gt]
      omega
    have htarget : Format.binary64.targetExponent (totalExponent v 0) = 11 := by
      rw [totalExponent, log2_large hlow hhigh]
      decide
    rw [UnpackedFloat.ofNat, UnpackedFloat.ofInt, UnpackedFloat.normalize, hcmp]
    simp only [UnpackedFloat.round, Int.toNat_natCast, htarget]
    rfl
  rw [hround]
  exact round_long (by omega) (log2_large hlow hhigh) (by decide)

end Large

/-! ## Packing -/

/-- The sign survives packing. -/
theorem unpackSign_packed {s : Sign} {e : BitVec 11} {m : BitVec 52} :
    Sign.ofBitVec (unpackSign (packComponents Format.binary64 s e m)) = s := by
  have hbit : unpackSign (packComponents Format.binary64 s e m) = s.toBitVec := by
    unfold unpackSign packComponents
    ext i hi
    have hlast : i = 0 := by omega
    subst hlast
    rw [BitVec.getElem_cast, BitVec.extractLsb, BitVec.getElem_extractLsb', BitVec.getLsbD_append,
      if_neg (by decide), BitVec.getLsbD_append, if_neg (by decide)]
    rfl
  rw [hbit]
  cases s <;> rfl

/-- A normal number is what it was packed from. -/
theorem unpack_pack_normal {s : Sign} {m : Nat} {e : Int} (hlow : 2 ^ 52 ≤ m) (hhigh : m < 2 ^ 53)
    (hmin : -1074 ≤ e) (hmax : e ≤ 971) (h : 0 < m) :
    (Float.Model.pack (.finite s m e h)).unpack = .finite s m e h := by
  have hlog := log2_normal hlow hhigh
  have hbiased : (e + Format.binary64.exponentBias + Format.binary64.mantissaBitsWithoutImplicit).toNat
      = (e + 1075).toNat := by
    change (e + ((1023 : Nat) : Int) + ((52 : Nat) : Int)).toNat = _
    omega
  -- packed without a subnormal, unpacked without one
  have hpack : UnpackedFloat.pack Format.binary64 (.finite s m e h) =
      packComponents Format.binary64 s (BitVec.ofNat 11 (e + 1075).toNat)
        (BitVec.ofNat 52 m) := by
    simp only [UnpackedFloat.pack, hlog, hbiased]
    rw [if_neg (by omega), if_pos (by decide)]
  have hexponent : (BitVec.ofNat 11 (e + 1075).toNat).toNat = (e + 1075).toNat := by
    rw [BitVec.toNat_ofNat, Nat.mod_eq_of_lt (by omega)]
  have hfinite : BitVec.ofNat 11 (e + 1075).toNat ≠ -1#11 := by
    intro heq
    have hnat := congrArg BitVec.toNat heq
    rw [hexponent] at hnat
    change _ = 2047 at hnat
    omega
  have hnormal : BitVec.ofNat 11 (e + 1075).toNat ≠ 0#11 := by
    intro heq
    have hnat := congrArg BitVec.toNat heq
    rw [hexponent] at hnat
    change _ = 0 at hnat
    omega
  have hmantissa : (1#1 ++ BitVec.ofNat 52 m).toNat = m := by
    rw [BitVec.toNat_append, ← Nat.shiftLeft_add_eq_or_of_lt (BitVec.ofNat 52 m).isLt,
      BitVec.toNat_ofNat, Nat.shiftLeft_eq]
    change 1 * 2 ^ 52 + m % 2 ^ 52 = m
    omega
  change UnpackedFloat.unpack Format.binary64
    (UnpackedFloat.pack Format.binary64 (.finite s m e h)) = _
  rw [hpack, UnpackedFloat.unpack]
  simp only [unpackMantissa_packComponents, unpackExponent_packComponents, unpackSign_packed,
    if_neg hfinite, if_neg hnormal, hexponent, hmantissa]
  congr 1
  change ((e + 1075).toNat : Int) - (((1023 : Nat) : Int) + ((52 : Nat) : Int)) = e
  omega

/-! ## Casts of large integers -/

/-- `2^63`, as the model unpacks it. -/
def two_pow_63 : UnpackedFloat := .finite .positive (2 ^ 52) 11 (by decide)

section Casts

variable {v : UInt64} (hlarge : 2 ^ 63 ≤ v.toNat)
include hlarge

/-- A large integer as a float: the rounded mantissa at the exponent 11, or `2^64`. -/
theorem unpack_large : ∃ h h', v.toFloat.toModel.unpack =
    if round_shift v.toNat 10 < 2 ^ 53 then .finite .positive (round_shift v.toNat 10) 11 h
    else .finite .positive (2 ^ 52) 12 h' := by
  have hbound := v.toNat_lt
  obtain ⟨hmin, hmax⟩ := round_shift_bounds hlarge hbound
  obtain ⟨h, h', hfloat⟩ := ofNat_large hlarge hbound
  refine ⟨h, h', ?_⟩
  change (Float.Model.pack (UnpackedFloat.ofNat Format.binary64 v.toNat)).unpack = _
  rw [hfloat]
  split
  · rename_i hshort
    exact unpack_pack_normal hmin hshort (by decide) (by decide) h
  · exact unpack_pack_normal (by decide) (by decide) (by decide) (by decide) h'

/-- Up to half a unit of the last place above it, `2^63` is the nearest float. -/
theorem le_two_pow_63_iff :
    v.toFloat.toModel.unpack.le two_pow_63 = true ↔ v.toNat ≤ 2 ^ 63 + 1024 := by
  have hbound := v.toNat_lt
  obtain ⟨hmin, hmax⟩ := round_shift_bounds hlarge hbound
  obtain ⟨h, h', hfloat⟩ := unpack_large hlarge
  have hnearest : round_shift v.toNat 10 ≤ 2 ^ 52 ↔ v.toNat ≤ 2 ^ 63 + 1024 := by
    unfold round_shift
    split <;> omega
  rw [hfloat, ← hnearest]
  split
  · change ((compare (11 : Int) 11).then (compare (round_shift v.toNat 10) (2 ^ 52))).isLE = true ↔ _
    rw [compare_eq_iff_eq.2 (rfl : (11 : Int) = 11)]
    exact Nat.isLE_compare
  · -- `2^64` has the greater exponent
    change (compare (12 : Int) 11 |>.then (compare (2 ^ 52) (2 ^ 52))).isLE = true ↔ _
    have hgt : compare (12 : Int) 11 = .gt := by decide
    rw [hgt]
    constructor
    · intro hle
      cases hle
    · intro hle
      omega

/-- No large integer is below the least `i64`, or any other negative float. -/
theorem negative_le {m : Nat} {e : Int} (hpos : 0 < m) :
    (UnpackedFloat.finite .negative m e hpos).le v.toFloat.toModel.unpack = true := by
  obtain ⟨h, h', hfloat⟩ := unpack_large hlarge
  rw [hfloat]
  split <;> rfl

omit hlarge in
theorem ofIntClamp_above {i : Int} (hi : 2 ^ 63 ≤ i) : Int64.ofIntClamp i = Int64.maxValue := by
  have hmax : Int64.maxValue.toInt = 2 ^ 63 - 1 := by decide
  have hmin : Int64.minValue.toInt = -2 ^ 63 := by decide
  rw [Int64.ofIntClamp, dif_pos (by omega), dif_neg (by omega)]

/-- Cast back to a signed integer, a large integer is the largest one. -/
theorem toInt64_large : v.toFloat.toModel.unpack.toInt64 = Int64.maxValue := by
  have hbound := v.toNat_lt
  obtain ⟨hmin, -⟩ := round_shift_bounds hlarge hbound
  obtain ⟨h, h', hfloat⟩ := unpack_large hlarge
  rw [hfloat]
  split
  · -- at the exponent 11 the mantissa is shifted back
    change Int64.ofIntClamp (((round_shift v.toNat 10) <<< 11 : Nat) : Int) = _
    apply ofIntClamp_above
    rw [Nat.shiftLeft_eq]
    omega
  · rfl

end Casts

end Scharnhorst.Binary64
