/-
Rescaling, multiplying and dividing fixed-point numbers.

Rescaling down rounds to the nearest value, ties to even, and nothing on the way overflows: the
factor is at most `10^18`, and a quotient of an `i64` by ten or more leaves room for the last
step. Rescaling up is a multiplication, exact where it fits; a zero is refused where the power
of ten does not fit, although any scale could hold it.

Multiplication and division cut their result off. Both compute a product of two raw values, or
of one and the power of ten, before they divide, and they compute it in `i64`. So there are
results that fit and are reported as overflow, and `MulOverflows` and `DivOverflows` say which.
-/
import Scharnhorst.FixedPoint

set_option autoImplicit false

namespace Scharnhorst

/-! ## Quotients that are an `i64` -/

/-- The quotient, cut off, is an `i64`: said without dividing. -/
def QuotientFits (n d : Int) : Prop :=
  -(2 ^ 63 + 1) * |d| < n * d.sign ∧ n * d.sign < 2 ^ 63 * |d|

instance (n d : Int) : Decidable (QuotientFits n d) :=
  inferInstanceAs (Decidable (_ ∧ _))

theorem inI64_tdiv_of_pos {n d : Int} (hd : 0 < d) :
    InI64 (n.tdiv d) ↔ -(2 ^ 63 + 1) * d < n ∧ n < 2 ^ 63 * d := by
  have hdiv := Int.mul_tdiv_add_tmod n d
  obtain ⟨hpos, hneg⟩ := Decimal.tmod_bounds (a := n) hd
  unfold InI64
  generalize n.tdiv d = q at *
  generalize n.tmod d = c at *
  -- the quotient has the sign of the dividend, and the remainder too
  by_cases hn : 0 ≤ n
  · obtain ⟨hlow, hhigh⟩ := hpos hn
    constructor
    · rintro ⟨-, hq⟩
      have hmul : d * q ≤ d * (2 ^ 63 - 1) := mul_le_mul_of_nonneg_left (by omega) hd.le
      constructor <;> omega
    · rintro ⟨-, hq⟩
      have hbelow : d * q < d * 2 ^ 63 := by omega
      have habove : d * (-1) < d * q := by omega
      have := lt_of_mul_lt_mul_left hbelow hd.le
      have := lt_of_mul_lt_mul_left habove hd.le
      omega
  · obtain ⟨hlow, hhigh⟩ := hneg (by omega)
    constructor
    · rintro ⟨hq, -⟩
      have hmul : d * (-2 ^ 63) ≤ d * q := mul_le_mul_of_nonneg_left hq hd.le
      constructor <;> omega
    · rintro ⟨hq, -⟩
      have habove : d * (-(2 ^ 63 + 1)) < d * q := by omega
      have hbelow : d * q < d * 1 := by omega
      have := lt_of_mul_lt_mul_left hbelow hd.le
      have := lt_of_mul_lt_mul_left habove hd.le
      omega

theorem inI64_tdiv {n d : Int} (hd : d ≠ 0) : InI64 (n.tdiv d) ↔ QuotientFits n d := by
  unfold QuotientFits
  rcases lt_or_gt_of_ne hd with hneg | hpos
  · rw [Int.sign_eq_neg_one_of_neg hneg, abs_of_neg hneg, mul_neg_one,
      ← inI64_tdiv_of_pos (show 0 < -d by omega), Int.neg_tdiv, Int.tdiv_neg, neg_neg]
  · rw [Int.sign_eq_one_of_pos hpos, abs_of_pos hpos, mul_one, inI64_tdiv_of_pos hpos]

/-- Dividing by one or more does not leave the type. -/
theorem InI64.tdiv {n d : Int} (hn : InI64 n) (hd : 0 < d) : InI64 (n.tdiv d) := by
  obtain ⟨hlow, hhigh⟩ := hn
  rw [inI64_tdiv_of_pos hd]
  have hmul : 2 ^ 63 * 1 ≤ 2 ^ 63 * d := mul_le_mul_of_nonneg_left (by omega) (by decide)
  constructor <;> omega

/-- Dividing by ten or more leaves room for one step. -/
theorem InI64.tdiv_room {n d : Int} (hn : InI64 n) (hd : 10 ≤ d) :
    InI64 (n.tdiv d + 1) ∧ InI64 (n.tdiv d - 1) := by
  have hquot := Int.natAbs_tdiv n d
  have hle : n.natAbs / d.natAbs ≤ n.natAbs / 10 := Nat.div_le_div_left (by omega) (by decide)
  obtain ⟨hlow, hhigh⟩ := hn
  change (n.tdiv d).natAbs = n.natAbs / d.natAbs at hquot
  unfold InI64
  omega

theorem checked_div_in {a b : Int64} (hb : b ≠ 0) (h : InI64 (a.toInt.tdiv b.toInt)) :
    ∃ q, I64.checked_div a b = some q ∧ q.toInt = a.toInt.tdiv b.toInt := by
  rw [I64.checked_div, if_neg hb]
  exact i64_of_int_in h

theorem checked_rem_in {a b : Int64} (hb : b ≠ 0) (h : InI64 (a.toInt.tdiv b.toInt))
    (hrem : InI64 (a.toInt.tmod b.toInt)) :
    ∃ c, I64.checked_rem a b = some c ∧ c.toInt = a.toInt.tmod b.toInt := by
  have hgood : ¬ (b = 0 ∨ ¬ InI64 (a.toInt.tdiv b.toInt)) := by
    rintro (hzero | hout)
    · exact hb hzero
    · exact hout h
  rw [I64.checked_rem, if_neg hgood]
  exact i64_of_int_in hrem

theorem toInt_two : (2 : Int64).toInt = 2 := by decide

/-- What is left of a number over two, as a test for odd ones. -/
theorem rem_two (q : Int64) :
    ∃ odd, I64.checked_rem q 2 = some odd ∧ (odd ≠ 0 ↔ ¬ (2 : Int) ∣ q.toInt) := by
  have hquot := (in_i64 q).tdiv (show 0 < (2 : Int64).toInt by decide)
  have hrem : InI64 (q.toInt.tmod (2 : Int64).toInt) := by
    rw [toInt_two]
    have hbounds := Decimal.tmod_bounds (a := q.toInt) (show 0 < 2 by decide)
    unfold InI64
    omega
  obtain ⟨odd, hmod, hodd⟩ := checked_rem_in (by decide) hquot hrem
  refine ⟨odd, hmod, ?_⟩
  rw [ne_eq, ← Int64.toInt_inj, hodd, toInt_two, Int.dvd_iff_tmod_eq_zero]
  rfl

theorem pow_ten_ne_zero {k : Nat} {f : Int64} (hf : f.toInt = 10 ^ k) : f ≠ 0 := by
  intro hzero
  rw [hzero] at hf
  exact (pow_pos (show (0 : Int) < 10 by decide) k).ne hf

namespace FixedPoint

/-! ## Rescaling -/

variable {x y : FixedPoint} {n : UInt32}

theorem compare_scale_gt {s : UInt32} (h : s < n) : compare n s = .gt := by
  have hne : n ≠ s := (UInt32.ne_of_lt h).symm
  have hnot : ¬ n < s := UInt32.not_lt.2 (UInt32.le_of_lt h)
  simp [compare, compareOfLessAndEq, hne, hnot]

theorem compare_scale_lt {s : UInt32} (h : n < s) : compare n s = .lt := by
  simp [compare, compareOfLessAndEq, h]

theorem rescale_same (x : FixedPoint) : x.rescale x.scale = .ok x := by
  simp [rescale]

/-- Up: the product, where it and the power of ten fit. -/
theorem rescale_up_ok (hn : x.scale < n) (hk : (n - x.scale).toNat ≤ 18) {r : Int64}
    (hr : r.toInt = x.raw.toInt * 10 ^ (n - x.scale).toNat) : x.rescale n = .ok (new r n) := by
  obtain ⟨f, hpow, hf⟩ := exists_pow_ten hk
  have hmul : I64.checked_mul x.raw f = some r := by
    rw [I64.checked_mul, hf, i64_of_int_eq_some, hr]
  unfold rescale
  simp only [compare_scale_gt hn, hpow, hmul, ok_or_bind_some]
  rfl

theorem rescale_up_error (hn : x.scale < n)
    (h : ¬ ((n - x.scale).toNat ≤ 18 ∧ InI64 (x.raw.toInt * 10 ^ (n - x.scale).toNat))) :
    x.rescale n = .error .ArithmeticOverflow := by
  unfold rescale
  by_cases hk : (n - x.scale).toNat ≤ 18
  · obtain ⟨f, hpow, hf⟩ := exists_pow_ten hk
    have hmul : I64.checked_mul x.raw f = none := by
      rw [I64.checked_mul, hf]
      exact i64_of_int_out fun hin => h ⟨hk, hin⟩
    simp only [compare_scale_gt hn, hpow, hmul, ok_or_bind_some, ok_or_bind_none]
  · simp only [compare_scale_gt hn, checked_pow_ten_large hk, ok_or_bind_none]

theorem scale_gap_ne_zero {s : UInt32} (hn : n < s) : (s - n).toNat ≠ 0 := by
  rw [toNat_sub_scale (UInt32.le_of_lt hn)]
  rw [UInt32.lt_iff_toNat_lt] at hn
  omega

/-- Down: the quotient rounded, with room for every step of it. -/
theorem rescale_down (hn : n < x.scale) (hk : (x.scale - n).toNat ≤ 18) :
    ∃ r : Int64, x.rescale n = .ok (new r n) ∧
      r.toInt = Decimal.round_tdiv x.raw.toInt (10 ^ (x.scale - n).toNat) := by
  obtain ⟨f, hpow, hf⟩ := exists_pow_ten hk
  have hten : (10 : Int) ≤ f.toInt := by
    rw [hf]
    exact le_self_pow₀ (by decide) (scale_gap_ne_zero hn)
  have hlimit : f.toInt ≤ 10 ^ 18 := by
    rw [hf]
    exact pow_le_pow_right₀ (by decide) hk
  rw [← hf]
  clear hf hk
  have hzero : f ≠ 0 := by
    rintro rfl
    exact absurd hten (by decide)
  have hraw := in_i64 x.raw
  have hbounds := Decimal.tmod_bounds (a := x.raw.toInt) (show 0 < f.toInt by omega)
  norm_num at hlimit
  have hrem : InI64 (x.raw.toInt.tmod f.toInt) := by
    unfold InI64
    omega
  have hquot := hraw.tdiv (show 0 < f.toInt by omega)
  -- none of the seven operations leaves the type
  obtain ⟨q, hdiv, hq⟩ := checked_div_in hzero hquot
  obtain ⟨c, hmod, hc⟩ := checked_rem_in hzero hquot hrem
  rw [← hc] at hbounds
  have hpos := abs_nonneg c.toInt
  have hless : |c.toInt| < f.toInt := by
    rw [abs_lt]
    omega
  obtain ⟨cut, habs, hcut⟩ := i64_of_int_in (v := |c.toInt|) ⟨by omega, by omega⟩
  obtain ⟨twice, hdouble, htwice⟩ := i64_of_int_in (v := cut.toInt * (2 : Int64).toInt)
    ⟨by rw [hcut, toInt_two]; omega, by rw [hcut, toInt_two]; omega⟩
  obtain ⟨odd, hparity, hodd⟩ := rem_two q
  obtain ⟨⟨up, hadd, hup⟩, ⟨down, hsub, hdown⟩⟩ := And.intro
    (i64_of_int_in (hraw.tdiv_room hten).1) (i64_of_int_in (hraw.tdiv_room hten).2)
  have hwhole : I64.checked_abs f = some f := by
    rw [I64.checked_abs, abs_of_pos (by omega), i64_of_int_toInt]
  have hround : (f < twice ∨ twice = f ∧ odd ≠ 0) ↔
      (f.toInt < 2 * |x.raw.toInt.tmod f.toInt| ∨
        2 * |x.raw.toInt.tmod f.toInt| = f.toInt ∧ ¬ 2 ∣ x.raw.toInt.tdiv f.toInt) := by
    rw [Int64.lt_iff_toInt_lt, ← Int64.toInt_inj, htwice, hcut, toInt_two, hodd, hq, hc, mul_comm]
  have hadd' : I64.checked_add q 1 = some up := by
    rw [I64.checked_add, hq]
    exact hadd
  have hsub' : I64.checked_sub q 1 = some down := by
    rw [I64.checked_sub, hq]
    exact hsub
  have habs' : I64.checked_abs c = some cut := habs
  have hdouble' : I64.checked_mul cut 2 = some twice := hdouble
  have hsign : 0 ≤ x.raw ↔ 0 ≤ x.raw.toInt := Int64.le_iff_toInt_le
  unfold rescale Decimal.round_tdiv
  simp only [compare_scale_lt hn, hpow, hdiv, hmod, habs', hdouble', hwhole, hparity,
    ok_or_bind_some, Bool.or_eq_true, Bool.and_eq_true, decide_eq_true_eq, beq_iff_eq,
    bne_iff_ne, hround, hsign, hadd', hsub']
  split
  · split
    · exact ⟨up, rfl, hup⟩
    · exact ⟨down, rfl, hdown⟩
  · exact ⟨q, rfl, hq⟩

theorem rescale_down_error (hn : n < x.scale) (hk : ¬ (x.scale - n).toNat ≤ 18) :
    x.rescale n = .error .ArithmeticOverflow := by
  unfold rescale
  simp only [compare_scale_lt hn, checked_pow_ten_large hk, ok_or_bind_none]

/-- The result of a rescaling down is the nearest value, the even one of two. -/
theorem rescale_down_nearest (hn : n < x.scale) (hk : (x.scale - n).toNat ≤ 18) :
    ∃ r : Int64, x.rescale n = .ok (new r n) ∧
      Decimal.NearestEven x.raw.toInt (10 ^ (x.scale - n).toNat) r.toInt := by
  obtain ⟨r, hok, hr⟩ := rescale_down hn hk
  refine ⟨r, hok, ?_⟩
  rw [hr]
  exact Decimal.nearestEven_round_tdiv (by positivity)

/-- A product with a power of ten that fits is zero, or the power fits too. -/
theorem gap_of_product {m : Int} {k : Nat} (hm : m ≠ 0) (h : InI64 (m * 10 ^ k)) : k ≤ 18 := by
  by_contra hk
  have hpow : (10 : Int) ^ 19 ≤ 10 ^ k := pow_le_pow_right₀ (by decide) (by omega)
  -- other than zero, it is at least the power
  have hmag : 1 * (10 : Int) ^ k ≤ |m| * 10 ^ k :=
    mul_le_mul_of_nonneg_right (Int.one_le_abs hm) (by positivity)
  have habs : |m * 10 ^ k| = |m| * 10 ^ k := by
    rw [abs_mul, abs_of_pos (show (0 : Int) < 10 ^ k by positivity)]
  have hfits : |m * 10 ^ k| ≤ 2 ^ 63 := by
    rw [abs_le]
    obtain ⟨hlow, hhigh⟩ := h
    constructor <;> omega
  norm_num at hpow hfits
  omega

/-- What rescaling one value to one scale should do. -/
structure RescaleExact (x : FixedPoint) (n : UInt32) : Prop where
  up : x.scale ≤ n → ∀ r : Int64, r.toInt = x.raw.toInt * 10 ^ (n - x.scale).toNat →
    x.rescale n = .ok (new r n)
  refused : x.scale ≤ n → ¬ InI64 (x.raw.toInt * 10 ^ (n - x.scale).toNat) →
    x.rescale n = .error .ArithmeticOverflow
  down : n < x.scale → (x.scale - n).toNat ≤ 18 →
    ∃ r : Int64, x.rescale n = .ok (new r n) ∧
      Decimal.NearestEven x.raw.toInt (10 ^ (x.scale - n).toNat) r.toInt
  checked : x.rescale n ≠ .error .Panic
  back : x.scale ≤ n → ∀ y, x.rescale n = .ok y → y.rescale x.scale = .ok x
  mono : n < x.scale → (x.scale - n).toNat ≤ 18 → ∀ z : FixedPoint, z.scale = x.scale →
    x.raw ≤ z.raw → ∀ r s : FixedPoint, x.rescale n = .ok r → z.rescale n = .ok s → r.raw ≤ s.raw

theorem scale_lt_of_gap {s : UInt32} (hle : s ≤ n) (h : (n - s).toNat ≠ 0) : s < n := by
  rw [toNat_sub_scale hle] at h
  rw [UInt32.lt_iff_toNat_lt]
  omega

theorem scale_cases (s n : UInt32) : s = n ∨ s < n ∨ n < s := by
  rw [UInt32.lt_iff_toNat_lt, UInt32.lt_iff_toNat_lt, ← UInt32.toNat_inj]
  omega

/-- Up and back again is where it began. -/
theorem rescale_back (hle : x.scale ≤ n) (h : x.rescale n = .ok y) : y.rescale x.scale = .ok x := by
  rcases scale_cases x.scale n with hsame | hlt | hgt
  · rw [← hsame, rescale_same] at h
    rw [← Except.ok.inj h, rescale_same]
  · by_cases hfits : (n - x.scale).toNat ≤ 18 ∧ InI64 (x.raw.toInt * 10 ^ (n - x.scale).toNat)
    · obtain ⟨hk, hin⟩ := hfits
      obtain ⟨r, -, hr⟩ := i64_of_int_in hin
      rw [rescale_up_ok hlt hk hr] at h
      rw [← Except.ok.inj h]
      -- the way down divides by what the way up multiplied with
      obtain ⟨m, hok, hnear⟩ := rescale_down_nearest (x := new r n) hlt hk
      rw [show (new r n).raw = r from rfl, hr] at hnear
      have hsame := hnear.unique (by positivity) (Decimal.NearestEven.of_mul (by positivity) _)
      rw [hok, Int64.toInt_inj.1 hsame]
      rfl
    · rw [rescale_up_error hlt hfits] at h
      cases h
  · exact absurd hle (UInt32.not_le.2 hgt)

theorem rescale_mono {z r s : FixedPoint} (hn : n < x.scale) (hk : (x.scale - n).toNat ≤ 18)
    (hz : z.scale = x.scale) (hle : x.raw ≤ z.raw) (hr : x.rescale n = .ok r)
    (hs : z.rescale n = .ok s) : r.raw ≤ s.raw := by
  -- both are rounded by one power of ten
  obtain ⟨a, hx, hnear⟩ := rescale_down_nearest hn hk
  rw [← hz] at hn hk
  obtain ⟨b, hzok, hnear'⟩ := rescale_down_nearest hn hk
  rw [hx] at hr
  rw [hzok] at hs
  rw [hz] at hnear'
  rw [← Except.ok.inj hr, ← Except.ok.inj hs]
  exact Int64.le_iff_toInt_le.2
    (hnear.mono (by positivity) hnear' (Int64.le_iff_toInt_le.1 hle))

theorem rescale_ne_panic (x : FixedPoint) (n : UInt32) : x.rescale n ≠ .error .Panic := by
  intro h
  rcases scale_cases x.scale n with hsame | hlt | hgt
  · rw [← hsame, rescale_same] at h
    cases h
  · by_cases hfits : (n - x.scale).toNat ≤ 18 ∧ InI64 (x.raw.toInt * 10 ^ (n - x.scale).toNat)
    · obtain ⟨r, -, hr⟩ := i64_of_int_in hfits.2
      rw [rescale_up_ok hlt hfits.1 hr] at h
      cases h
    · rw [rescale_up_error hlt hfits] at h
      cases h
  · by_cases hk : (x.scale - n).toNat ≤ 18
    · obtain ⟨r, hok, -⟩ := rescale_down hgt hk
      rw [hok] at h
      cases h
    · rw [rescale_down_error hgt hk] at h
      cases h

/-- Rescaling is exact except for a zero that is brought up by nineteen digits or more. -/
theorem rescaleExact_iff (x : FixedPoint) (n : UInt32) :
    RescaleExact x n ↔ ¬ (x.raw = 0 ∧ x.scale ≤ n ∧ 18 < (n - x.scale).toNat) := by
  constructor
  · intro h hzero
    obtain ⟨hraw, hle, hgap⟩ := hzero
    have hok := h.up hle 0 (by rw [hraw]; simp)
    have hlt := scale_lt_of_gap hle (by omega)
    rw [rescale_up_error hlt (fun hfits => by omega)] at hok
    cases hok
  · intro h
    refine ⟨?_, ?_, ?_, rescale_ne_panic x n, fun hle y hy => rescale_back hle hy, ?_⟩
    · intro hle r hr
      rcases scale_cases x.scale n with hsame | hlt | hgt
      · rw [← hsame] at hr ⊢
        simp only [UInt32.sub_self, UInt32.toNat_zero, pow_zero, mul_one, Int64.toInt_inj] at hr
        rw [rescale_same, hr]
        rfl
      · have hgap : (n - x.scale).toNat ≤ 18 := by
          by_contra hk
          have hraw : x.raw ≠ 0 := fun hraw => h ⟨hraw, hle, by omega⟩
          have hm : x.raw.toInt ≠ 0 := fun hm => hraw (Int64.toInt_inj.1 hm)
          exact hk (gap_of_product hm (hr ▸ in_i64 r))
        exact rescale_up_ok hlt hgap hr
      · exact absurd hle (UInt32.not_le.2 hgt)
    · intro hle hout
      rcases scale_cases x.scale n with hsame | hlt | hgt
      · rw [← hsame] at hout
        simp only [UInt32.sub_self, UInt32.toNat_zero, pow_zero, mul_one] at hout
        exact absurd (in_i64 x.raw) hout
      · exact rescale_up_error hlt fun hfits => hout hfits.2
      · exact absurd hle (UInt32.not_le.2 hgt)
    · intro hn hk
      exact rescale_down_nearest hn hk
    · intro hn hk z hz hle r s hr hs
      exact rescale_mono hn hk hz hle hr hs

/-- Zero at nineteen digits is zero, and is reported as an overflow. -/
theorem not_rescaleExact_zero :
    (new 0 0).rescale 19 = .error .ArithmeticOverflow ∧ ¬ RescaleExact (new 0 0) 19 := by
  have herr : (new 0 0).rescale 19 = .error .ArithmeticOverflow := by decide
  refine ⟨herr, ?_⟩
  intro h
  have hok := h.up (by decide) 0 (by decide)
  rw [herr] at hok
  cases hok

/-! ## Arithmetic -/

variable {a b : FixedPoint}

/-! ### Sums -/

theorem ensure_same_scale_ok (h : a.scale = b.scale) : ensure_same_scale a b = .ok () :=
  if_neg (not_not.2 h)

/-- Beyond the check the scales are the same. -/
theorem ensure_same_scale_bind {f : Unit → CoreResult FixedPoint} {r : FixedPoint}
    (h : (ensure_same_scale a b >>= f) = .ok r) : a.scale = b.scale ∧ f () = .ok r := by
  by_cases hs : a.scale = b.scale
  · rw [ensure_same_scale_ok hs] at h
    exact ⟨hs, h⟩
  · rw [ensure_same_scale, if_pos hs] at h
    cases h

/-- A sum is that of the numbers, wherever there is one. -/
theorem value_add {r : FixedPoint} (h : a.add b = .ok r) : r.value = a.value + b.value := by
  obtain ⟨hs, h⟩ := ensure_same_scale_bind h
  obtain ⟨raw, hraw, hr⟩ := ok_or_bind_ok.1 h
  cases hr
  unfold value
  rw [← hs, ← Decimal.decimal_add]
  exact congrArg (Decimal.decimal · _) (i64_of_int_eq_some.1 hraw)

theorem value_sub {r : FixedPoint} (h : a.sub b = .ok r) : r.value = a.value - b.value := by
  obtain ⟨hs, h⟩ := ensure_same_scale_bind h
  obtain ⟨raw, hraw, hr⟩ := ok_or_bind_ok.1 h
  cases hr
  unfold value
  rw [← hs, ← Decimal.decimal_sub]
  exact congrArg (Decimal.decimal · _) (i64_of_int_eq_some.1 hraw)

theorem value_neg {r : FixedPoint} (h : a.neg = .ok r) : r.value = -a.value := by
  obtain ⟨raw, hraw, hr⟩ := ok_or_bind_ok.1 h
  cases hr
  unfold value
  rw [← Decimal.decimal_neg]
  exact congrArg (Decimal.decimal · _) (i64_of_int_eq_some.1 hraw)

/-- An integer at a scale is still that integer. -/
theorem value_from_i64 {v : Int64} {scale : UInt32} {r : FixedPoint}
    (h : from_i64 v scale = .ok r) : r.value = v.toInt := by
  obtain ⟨factor, hfactor, h⟩ := ok_or_bind_ok.1 h
  obtain ⟨raw, hraw, hr⟩ := ok_or_bind_ok.1 h
  cases hr
  have hpow : factor.toInt = 10 ^ scale.toNat := i64_of_int_eq_some.1 hfactor
  have hmul : raw.toInt = v.toInt * 10 ^ scale.toNat := by
    rw [← hpow]
    exact i64_of_int_eq_some.1 hraw
  unfold value Decimal.decimal
  rw [new, hmul]
  push_cast
  exact mul_div_cancel_right₀ _ (by positivity)

/-! ### Products and quotients -/

/-- The product of the raw values. -/
def product (a b : FixedPoint) : Int := a.raw.toInt * b.raw.toInt

/-- The raw value of the dividend, scaled up. -/
def numerator (a : FixedPoint) : Int := a.raw.toInt * 10 ^ a.scale.toNat

theorem mul_ok (hs : a.scale = b.scale) (hk : a.scale.toNat ≤ 18) (hin : InI64 (product a b))
    {r : Int64} (hr : r.toInt = (product a b).tdiv (10 ^ a.scale.toNat)) :
    a.mul b = .ok (new r a.scale) := by
  obtain ⟨f, hpow, hf⟩ := exists_pow_ten hk
  obtain ⟨p, hmul, hp⟩ := i64_of_int_in hin
  have hzero : f ≠ 0 := pow_ten_ne_zero hf
  have hdiv : I64.checked_div p f = some r := by
    rw [I64.checked_div, if_neg hzero, hp, hf, ← hr, i64_of_int_toInt]
  unfold mul
  rw [ensure_same_scale_ok hs]
  change (ok_or _ (i64_of_int (product a b)) >>= _) = _
  rw [hmul, ok_or_bind_some, hpow, ok_or_bind_some, hdiv]
  rfl

theorem mul_error (hs : a.scale = b.scale)
    (h : ¬ (a.scale.toNat ≤ 18 ∧ InI64 (product a b))) :
    a.mul b = .error .ArithmeticOverflow := by
  unfold mul
  rw [ensure_same_scale_ok hs]
  change (ok_or _ (i64_of_int (product a b)) >>= _) = _
  by_cases hin : InI64 (product a b)
  · obtain ⟨p, hmul, -⟩ := i64_of_int_in hin
    rw [hmul, ok_or_bind_some, checked_pow_ten_large fun hk => h ⟨hk, hin⟩]
    rfl
  · rw [i64_of_int_out hin]
    rfl

theorem div_zero (hs : a.scale = b.scale) (hb : b.raw = 0) : a.div b = .error .DivisionByZero := by
  unfold div
  rw [ensure_same_scale_ok hs]
  simp only [hb]
  rfl

theorem div_ok (hs : a.scale = b.scale) (hb : b.raw ≠ 0) (hk : a.scale.toNat ≤ 18)
    (hin : InI64 a.numerator) {r : Int64} (hr : r.toInt = a.numerator.tdiv b.raw.toInt) :
    a.div b = .ok (new r a.scale) := by
  obtain ⟨f, hpow, hf⟩ := exists_pow_ten hk
  obtain ⟨p, hmul, hp⟩ := i64_of_int_in hin
  have hscaled : I64.checked_mul a.raw f = some p := by
    rw [I64.checked_mul, hf]
    exact hmul
  have hdiv : I64.checked_div p b.raw = some r := by
    rw [I64.checked_div, if_neg hb, hp, ← hr, i64_of_int_toInt]
  unfold div
  rw [ensure_same_scale_ok hs, if_neg hb]
  rw [hpow, ok_or_bind_some, hscaled, ok_or_bind_some, hdiv]
  rfl

theorem div_error (hs : a.scale = b.scale) (hb : b.raw ≠ 0)
    (h : ¬ (a.scale.toNat ≤ 18 ∧ InI64 a.numerator ∧ InI64 (a.numerator.tdiv b.raw.toInt))) :
    a.div b = .error .ArithmeticOverflow := by
  unfold div
  rw [ensure_same_scale_ok hs, if_neg hb]
  by_cases hk : a.scale.toNat ≤ 18
  · obtain ⟨f, hpow, hf⟩ := exists_pow_ten hk
    have hscaled : I64.checked_mul a.raw f = i64_of_int a.numerator := by
      rw [I64.checked_mul, hf, numerator]
    rw [hpow, ok_or_bind_some, hscaled]
    by_cases hin : InI64 a.numerator
    · obtain ⟨p, hmul, hp⟩ := i64_of_int_in hin
      rw [hmul, ok_or_bind_some, I64.checked_div, if_neg hb, hp,
        i64_of_int_out fun hquot => h ⟨hk, hin, hquot⟩]
      rfl
    · rw [i64_of_int_out hin]
      rfl
  · rw [checked_pow_ten_large hk]
    rfl

/-- What a product should be. -/
structure MulExact (a b : FixedPoint) : Prop where
  exact : a.scale.toNat ≤ 18 → ∀ r : Int64,
    r.toInt = (product a b).tdiv (10 ^ a.scale.toNat) → a.mul b = .ok (new r a.scale)
  refused : ¬ (a.scale.toNat ≤ 18 ∧ InI64 ((product a b).tdiv (10 ^ a.scale.toNat))) →
    a.mul b = .error .ArithmeticOverflow

/-- What a quotient should be. -/
structure DivExact (a b : FixedPoint) : Prop where
  exact : a.scale.toNat ≤ 18 → b.raw ≠ 0 → ∀ r : Int64,
    r.toInt = a.numerator.tdiv b.raw.toInt → a.div b = .ok (new r a.scale)
  by_zero : b.raw = 0 → a.div b = .error .DivisionByZero
  refused : b.raw ≠ 0 →
    ¬ (a.scale.toNat ≤ 18 ∧ InI64 (a.numerator.tdiv b.raw.toInt)) →
    a.div b = .error .ArithmeticOverflow

/-- The product of the raw values is too large, and the result is not. -/
def MulOverflows (a b : FixedPoint) : Prop :=
  a.scale.toNat ≤ 18 ∧ ¬ InI64 (product a b) ∧ QuotientFits (product a b) (10 ^ a.scale.toNat)

/-- The scaled dividend is too large, and the result is not. -/
def DivOverflows (a b : FixedPoint) : Prop :=
  a.scale.toNat ≤ 18 ∧ b.raw ≠ 0 ∧ ¬ InI64 a.numerator ∧ QuotientFits a.numerator b.raw.toInt

theorem mulExact_iff (hs : a.scale = b.scale) : MulExact a b ↔ ¬ MulOverflows a b := by
  have hpos : (0 : Int) < 10 ^ a.scale.toNat := by positivity
  constructor
  · intro h hover
    obtain ⟨hk, hout, hfits⟩ := hover
    obtain ⟨r, -, hr⟩ := i64_of_int_in ((inI64_tdiv hpos.ne').2 hfits)
    have hok := h.exact hk r hr
    rw [mul_error hs fun hin => hout hin.2] at hok
    cases hok
  · intro h
    constructor
    · intro hk r hr
      refine mul_ok hs hk ?_ hr
      by_contra hout
      exact h ⟨hk, hout, (inI64_tdiv hpos.ne').1 (hr ▸ in_i64 r)⟩
    · intro hnot
      apply mul_error hs
      rintro ⟨hk, hin⟩
      exact hnot ⟨hk, hin.tdiv hpos⟩

theorem divExact_iff (hs : a.scale = b.scale) : DivExact a b ↔ ¬ DivOverflows a b := by
  have hzero : b.raw ≠ 0 → b.raw.toInt ≠ 0 := fun hb hz => hb (Int64.toInt_inj.1 hz)
  constructor
  · intro h hover
    obtain ⟨hk, hb, hout, hfits⟩ := hover
    obtain ⟨r, -, hr⟩ := i64_of_int_in ((inI64_tdiv (hzero hb)).2 hfits)
    have hok := h.exact hk hb r hr
    rw [div_error hs hb fun hin => hout hin.2.1] at hok
    cases hok
  · intro h
    refine ⟨?_, div_zero hs, ?_⟩
    · intro hk hb r hr
      refine div_ok hs hb hk ?_ hr
      by_contra hout
      exact h ⟨hk, hb, hout, (inI64_tdiv (hzero hb)).1 (hr ▸ in_i64 r)⟩
    · intro hb hnot
      apply div_error hs hb
      rintro ⟨hk, -, hquot⟩
      exact hnot ⟨hk, hquot⟩

/-- Products and quotients at one scale are exact, and refused where they do not fit, unless a
number on the way is too large and the result is not. -/
theorem mul_div_exact_iff (a b : FixedPoint) (hs : a.scale = b.scale) :
    MulExact a b ∧ DivExact a b ↔ ¬ MulOverflows a b ∧ ¬ DivOverflows a b :=
  and_congr (mulExact_iff hs) (divExact_iff hs)

/-- `1.00 * 2.00` and `7.00 / 2.00`. -/
theorem small_numbers_exact :
    (MulExact (new 100 2) (new 200 2) ∧ DivExact (new 700 2) (new 200 2)) ∧
      (new 700 2).div (new 200 2) = .ok (new 350 2) := by
  have hmul := mul_div_exact_iff (new 100 2) (new 200 2) rfl
  have hdiv := mul_div_exact_iff (new 700 2) (new 200 2) rfl
  refine ⟨⟨(hmul.2 ?_).1, (hdiv.2 ?_).2⟩, by decide⟩
  · exact ⟨fun h => h.2.1 (by decide), fun h => h.2.2.1 (by decide)⟩
  · exact ⟨fun h => h.2.1 (by decide), fun h => h.2.2.1 (by decide)⟩

/-- The square of `400000.0000` and the quotient of `10^12` by itself fit, and both are reported
as overflow. -/
theorem not_exact_large :
    ((new 4000000000 4).mul (new 4000000000 4) = .error .ArithmeticOverflow ∧
        ¬ MulExact (new 4000000000 4) (new 4000000000 4)) ∧
      (new 10000000000000000 4).div (new 10000000000000000 4) = .error .ArithmeticOverflow ∧
        ¬ DivExact (new 10000000000000000 4) (new 10000000000000000 4) := by
  have hmul : (new 4000000000 4).mul (new 4000000000 4) = .error .ArithmeticOverflow := by decide
  have hdiv : (new 10000000000000000 4).div (new 10000000000000000 4) =
      .error .ArithmeticOverflow := by decide
  refine ⟨⟨hmul, ?_⟩, hdiv, ?_⟩
  · intro h
    have hok := h.exact (by decide) 1600000000000000 (by decide)
    rw [hmul] at hok
    cases hok
  · intro h
    have hok := h.exact (by decide) (by decide) 10000 (by decide)
    rw [hdiv] at hok
    cases hok

end FixedPoint

end Scharnhorst
