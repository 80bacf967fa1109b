/-
Comparing and hashing fixed-point numbers.

Two values of different scales are compared in `i128`. There are two ways out of that type. A
power of ten that is too large is noticed, and the sign of the other number settles the order.
A product that is too large is not settled: `cmp_normalized` answers nothing, `cmp` takes that
for equal and `eq` for different. Where no product leaves the type both follow the order of the
rationals, and `ScalesPast` says where one does.

`eq` is sound in any case, and the hash follows it except at zero, which `canonical_form` keeps
at the scale it was written with.
-/
import Scharnhorst.FixedPoint

set_option autoImplicit false

namespace Scharnhorst

/-! ## Integers that one side outweighs -/

/-- A factor larger than the other number leaves the sign to decide. -/
theorem compare_outweighed {a b p : Int} (hlow : -p < b) (hhigh : b < p) :
    compare (a * p) b = (compare a 0).then (compare 0 b) := by
  rcases lt_trichotomy a 0 with hneg | hzero | hpos
  · have hmul : a * p ≤ -1 * p := mul_le_mul_of_nonneg_right (by omega) (by omega)
    rw [compare_lt_iff_lt.2 hneg, compare_lt_iff_lt.2 (show a * p < b by omega)]
    rfl
  · rw [hzero, zero_mul, compare_eq_iff_eq.2 (show (0 : Int) = 0 from rfl)]
    rfl
  · have hmul : 1 * p ≤ a * p := mul_le_mul_of_nonneg_right (by omega) (by omega)
    rw [compare_gt_iff_gt.2 hpos, compare_gt_iff_gt.2 (show b < a * p by omega)]
    rfl

theorem compare_outweighed' {a b p : Int} (hlow : -p < a) (hhigh : a < p) :
    compare a (b * p) = (compare b 0).swap.then (compare a 0) := by
  rw [Std.OrientedOrd.eq_swap, compare_outweighed hlow hhigh, Ordering.swap_then,
    ← Std.OrientedOrd.eq_swap (a := a) (b := 0)]

/-! ## Division by ten -/

theorem mod_ten_eq_zero {raw : Int64} : raw % 10 = 0 ↔ (10 : Int) ∣ raw.toInt := by
  rw [← Int64.toInt_inj, Int64.toInt_mod, Int.dvd_iff_tmod_eq_zero]
  rfl

/-- A number that ends in a zero is ten times what is left without it. -/
theorem ten_mul_div_ten {raw : Int64} (h : raw % 10 = 0) :
    (raw / 10).toInt * 10 = raw.toInt := by
  rw [Int64.toInt_div_of_ne_right raw 10 (by decide), toInt_ten]
  exact Int.tdiv_mul_cancel (mod_ten_eq_zero.1 h)

namespace FixedPoint

/-! ## Comparing -/

/-- `x` has fewer digits after the point than `y`; the power of ten between them is an `i128`,
and the number that it makes of `x` is not. -/
def ScalesPast (x y : FixedPoint) : Prop :=
  x.scale < y.scale ∧ (y.scale - x.scale).toNat ≤ 38 ∧
    ¬ InI128 (x.raw.toInt * 10 ^ (y.scale - x.scale).toNat)

instance (x y : FixedPoint) : Decidable (ScalesPast x y) :=
  inferInstanceAs (Decidable (_ ∧ _))

variable {a b c : FixedPoint}

theorem ScalesPast.scale_ne (h : ScalesPast a b) : a.scale ≠ b.scale := by
  intro heq
  have hlt := h.1
  rw [heq] at hlt
  exact UInt32.lt_irrefl _ hlt

/-- An `i64` is small beside a power of ten that no `i128` holds. -/
theorem raw_outweighed (x : FixedPoint) {k : Nat} (hk : ¬ k ≤ 38) :
    -10 ^ k < x.raw.toInt ∧ x.raw.toInt < 10 ^ k := by
  obtain ⟨hlow, hhigh⟩ := in_i64 x.raw
  have hmono : (10 : Int) ^ 39 ≤ 10 ^ k := pow_le_pow_right₀ (by decide) (by omega)
  norm_num at hlow hhigh hmono
  omega

theorem compare_value_left {x y : FixedPoint} (h : x.scale < y.scale) :
    compare x.value y.value =
      compare (x.raw.toInt * 10 ^ (y.scale - x.scale).toNat) y.raw.toInt := by
  have hle := UInt32.le_of_lt h
  have hscale : y.scale.toNat = x.scale.toNat + (y.scale - x.scale).toNat := by
    rw [toNat_sub_scale hle]
    have := UInt32.le_iff_toNat_le.1 hle
    omega
  rw [value, value, hscale]
  exact Decimal.compare_left _ _ _ _

theorem compare_value_right {x y : FixedPoint} (h : y.scale < x.scale) :
    compare x.value y.value =
      compare x.raw.toInt (y.raw.toInt * 10 ^ (x.scale - y.scale).toNat) := by
  rw [Std.OrientedOrd.eq_swap, compare_value_left h]
  exact Std.OrientedOrd.eq_swap.symm

/-- Where no product leaves `i128`, the rationals are compared. -/
theorem cmp_normalized_eq_compare (h : ¬ ScalesPast a b) (h' : ¬ ScalesPast b a) :
    a.cmp_normalized b = some (compare a.value b.value) := by
  unfold cmp_normalized
  by_cases heq : a.scale = b.scale
  · rw [if_pos heq, value, value, heq, Decimal.compare_same]
  rw [if_neg heq]
  by_cases hlt : a.scale < b.scale
  · rw [if_pos hlt, compare_value_left hlt]
    by_cases hk : (b.scale - a.scale).toNat ≤ 38
    · have hin : InI128 (a.raw.toInt * 10 ^ (b.scale - a.scale).toNat) := by
        by_contra hout
        exact h ⟨hlt, hk, hout⟩
      simp only [I128.checked_pow_ten hk, I128.checked_mul, i128_of_int_in hin, Option.map_some]
    · -- no power: any digit of the left side outweighs the right one
      obtain ⟨hlow, hhigh⟩ := b.raw_outweighed hk
      rw [compare_outweighed hlow hhigh]
      simp only [I128.checked_pow_ten_large hk]
      split <;> simp [*]
  · have hgt : b.scale < a.scale := by
      rw [UInt32.lt_iff_toNat_lt] at hlt ⊢
      have hne : a.scale.toNat ≠ b.scale.toNat := fun e => heq (UInt32.toNat_inj.1 e)
      omega
    rw [if_neg hlt, compare_value_right hgt]
    by_cases hk : (a.scale - b.scale).toNat ≤ 38
    · have hin : InI128 (b.raw.toInt * 10 ^ (a.scale - b.scale).toNat) := by
        by_contra hout
        exact h' ⟨hgt, hk, hout⟩
      simp only [I128.checked_pow_ten hk, I128.checked_mul, i128_of_int_in hin, Option.map_some]
    · obtain ⟨hlow, hhigh⟩ := a.raw_outweighed hk
      rw [compare_outweighed' hlow hhigh]
      simp only [I128.checked_pow_ten_large hk]
      split <;> simp [*]

/-- Where one leaves it there is no answer. -/
theorem cmp_normalized_eq_none (h : ScalesPast a b ∨ ScalesPast b a) :
    a.cmp_normalized b = none := by
  unfold cmp_normalized
  rcases h with hpast | hpast
  · have hne := hpast.scale_ne
    obtain ⟨hlt, hk, hout⟩ := hpast
    rw [if_neg hne, if_pos hlt]
    simp only [I128.checked_pow_ten hk, I128.checked_mul, i128_of_int_out hout, Option.map_none]
  · have hne := hpast.scale_ne.symm
    obtain ⟨hlt, hk, hout⟩ := hpast
    rw [if_neg hne, if_neg (UInt32.not_lt.2 (UInt32.le_of_lt hlt))]
    simp only [I128.checked_pow_ten hk, I128.checked_mul, i128_of_int_out hout, Option.map_none]

/-- A number that was scaled past `i128` is not zero, so the two values differ. -/
theorem ScalesPast.value_ne (h : ScalesPast a b) : a.value ≠ b.value := by
  obtain ⟨hlt, hk, hout⟩ := h
  intro heq
  have hcmp := compare_eq_iff_eq.2 heq
  rw [compare_value_left hlt, compare_eq_iff_eq] at hcmp
  -- the product would be the other raw value, which is an `i64`
  obtain ⟨hlow, hhigh⟩ := in_i64 b.raw
  rw [hcmp] at hout
  exact hout ⟨by omega, by omega⟩

/-- `==` holds of equal numbers only. -/
theorem value_eq_of_eq (h : a.eq b = true) : a.value = b.value := by
  by_cases hpast : ScalesPast a b ∨ ScalesPast b a
  · rw [eq, cmp_normalized_eq_none hpast] at h
    cases h
  · rw [not_or] at hpast
    rw [eq, cmp_normalized_eq_compare hpast.1 hpast.2] at h
    exact compare_eq_iff_eq.1 (Ordering.isEq_iff_eq_eq.1 h)

/-- And of all of them, as long as they can be compared. -/
theorem eq_of_value_eq (h : a.value = b.value) : a.eq b = true := by
  have hpast : ¬ ScalesPast a b := fun hp => hp.value_ne h
  have hpast' : ¬ ScalesPast b a := fun hp => hp.value_ne h.symm
  rw [eq, cmp_normalized_eq_compare hpast hpast', compare_eq_iff_eq.2 h]
  rfl

theorem eq_iff_value_eq : a.eq b = true ↔ a.value = b.value :=
  ⟨value_eq_of_eq, eq_of_value_eq⟩

/-- Values that are ordered as numbers, by an order that agrees with `==`. -/
structure OrderedExactly (S : Set FixedPoint) : Prop where
  exact : ∀ a ∈ S, ∀ b ∈ S, a.cmp b = compare a.value b.value
  eq_iff : ∀ a ∈ S, ∀ b ∈ S, a.eq b = true ↔ a.cmp b = .eq
  swap : ∀ a ∈ S, ∀ b ∈ S, b.cmp a = (a.cmp b).swap
  trans : ∀ a ∈ S, ∀ b ∈ S, ∀ c ∈ S, (a.cmp b).isLE → (b.cmp c).isLE → (a.cmp c).isLE

/-- A set of values is ordered exactly if and only if none of them is scaled past `i128` by
another. -/
theorem orderedExactly_iff (S : Set FixedPoint) :
    OrderedExactly S ↔ ∀ a ∈ S, ∀ b ∈ S, ¬ ScalesPast a b := by
  constructor
  · intro h a ha b hb hpast
    have hcmp := h.exact a ha b hb
    rw [cmp, cmp_normalized_eq_none (.inl hpast)] at hcmp
    exact hpast.value_ne (compare_eq_iff_eq.1 hcmp.symm)
  · intro h
    have hexact : ∀ a ∈ S, ∀ b ∈ S, a.cmp b = compare a.value b.value := by
      intro a ha b hb
      rw [cmp, cmp_normalized_eq_compare (h a ha b hb) (h b hb a ha)]
      rfl
    refine ⟨hexact, ?_, ?_, ?_⟩
    · intro a ha b hb
      rw [eq_iff_value_eq, hexact a ha b hb, compare_eq_iff_eq]
    · intro a ha b hb
      rw [hexact a ha b hb, hexact b hb a ha]
      exact Std.OrientedOrd.eq_swap
    · intro a ha b hb c hc hab hbc
      rw [hexact a ha b hb] at hab
      rw [hexact b hb c hc] at hbc
      rw [hexact a ha c hc]
      exact Std.TransOrd.isLE_trans hab hbc

/-- The largest `i64` against `10^-20`: the first is larger, the two are not `==`, and they are
ordered as equal. -/
theorem not_orderedExactly_max_tiny :
    let a := new 9223372036854775807 0
    let b := new 1 20
    (a.cmp b = .eq ∧ a.eq b = false ∧ b.value < a.value) ∧
      ¬ OrderedExactly {x | x = a ∨ x = b} := by
  intro a b
  have hcmp : a.cmp b = .eq := by decide
  have hlt : b.value < a.value := by
    apply compare_gt_iff_gt.1
    rw [compare_value_left (by decide)]
    decide
  refine ⟨⟨hcmp, by decide, hlt⟩, ?_⟩
  intro h
  -- `Equal` would say that the numbers are
  have hexact := h.exact a (.inl rfl) b (.inr rfl)
  rw [hcmp] at hexact
  exact hlt.ne' (compare_eq_iff_eq.1 hexact.symm)

/-! ## Hashing -/

/-- The loop keeps the number. -/
theorem strip_zeros_decimal (raw : Int64) (scale : Nat) :
    Decimal.decimal (strip_zeros raw scale).1.toInt (strip_zeros raw scale).2 =
      Decimal.decimal raw.toInt scale := by
  induction scale generalizing raw with
  | zero => rfl
  | succ scale ih =>
    unfold strip_zeros
    split
    · rename_i hzero
      rw [ih (raw / 10)]
      have hten := ten_mul_div_ten hzero.2
      rw [← Decimal.decimal_shift (raw / 10).toInt scale 1, pow_one, hten]
    · rfl

/-- And stops where no zero can be taken off. -/
theorem strip_zeros_stripped {raw : Int64} (hraw : raw ≠ 0) (scale : Nat) :
    Decimal.Stripped (strip_zeros raw scale).1.toInt (strip_zeros raw scale).2 := by
  induction scale generalizing raw with
  | zero => exact .inl rfl
  | succ scale ih =>
    unfold strip_zeros
    split
    · rename_i hzero
      -- the quotient of a raw value that is not zero is not zero
      apply ih
      intro hquot
      have hten := ten_mul_div_ten hzero.2
      rw [hquot] at hten
      exact hraw (Int64.toInt_inj.1 (by simpa using hten.symm))
    · rename_i hlast
      refine .inr fun hdvd => hlast ⟨hraw, ?_⟩
      exact mod_ten_eq_zero.2 hdvd

@[simp] theorem strip_zeros_zero (scale : Nat) : strip_zeros 0 scale = (0, scale) := by
  unfold strip_zeros
  split
  · rfl
  · exact if_neg fun h => h.1 rfl

theorem canonical_form_zero {x : FixedPoint} (h : x.raw = 0) :
    x.canonical_form = (0, x.scale) := by
  simp [canonical_form, h]

theorem value_eq_zero {x : FixedPoint} : x.value = 0 ↔ x.raw = 0 := by
  rw [value, Decimal.decimal_eq_zero, ← Int64.toInt_inj]
  rfl

/-- Equal values are hashed alike. -/
def HashAgrees (a b : FixedPoint) : Prop :=
  a.eq b = true → a.canonical_form = b.canonical_form

/-- Different representations of one number, zero apart, are stripped to the same one. -/
theorem canonical_form_eq (ha : a.raw ≠ 0) (hb : b.raw ≠ 0) (h : a.value = b.value) :
    a.canonical_form = b.canonical_form := by
  have hnumber := (strip_zeros_decimal a.raw a.scale.toNat).trans
    (h.trans (strip_zeros_decimal b.raw b.scale.toNat).symm)
  -- a number is written without trailing zeros in one way
  obtain ⟨hraw, hscale⟩ := (strip_zeros_stripped ha _).unique (strip_zeros_stripped hb _) hnumber
  simp only [canonical_form]
  rw [Int64.toInt_inj.1 hraw, hscale]

/-- Equal values are hashed alike, unless they are zero at two scales. -/
theorem hashAgrees_iff (a b : FixedPoint) :
    HashAgrees a b ↔ ¬ (a.raw = 0 ∧ b.raw = 0 ∧ a.scale ≠ b.scale) := by
  constructor
  · intro h hzero
    obtain ⟨ha, hb, hscale⟩ := hzero
    have hvalue : a.value = b.value := by rw [value_eq_zero.2 ha, value_eq_zero.2 hb]
    have hform := h (eq_of_value_eq hvalue)
    rw [canonical_form_zero ha, canonical_form_zero hb] at hform
    exact hscale (congrArg Prod.snd hform)
  · intro h heq
    have hvalue := value_eq_of_eq heq
    by_cases ha : a.raw = 0
    · have hb : b.raw = 0 := by rw [← value_eq_zero, ← hvalue, value_eq_zero, ha]
      rw [canonical_form_zero ha, canonical_form_zero hb]
      by_contra hne
      exact h ⟨ha, hb, fun hscale => hne (by rw [hscale])⟩
    · have hb : b.raw ≠ 0 := by
        intro hb
        rw [← value_eq_zero, ← hvalue, value_eq_zero] at hb
        exact ha hb
      exact canonical_form_eq ha hb hvalue

/-- `0` and `0.00` are equal, and are hashed apart. -/
theorem not_hashAgrees_zero :
    (new 0 0).eq (new 0 2) = true ∧
      (new 0 0).canonical_form ≠ (new 0 2).canonical_form ∧
      ¬ HashAgrees (new 0 0) (new 0 2) := by
  have heq : (new 0 0).eq (new 0 2) = true := by decide
  have hne : (new 0 0).canonical_form ≠ (new 0 2).canonical_form := by decide
  exact ⟨heq, hne, fun h => hne (h heq)⟩

end FixedPoint

end Scharnhorst
