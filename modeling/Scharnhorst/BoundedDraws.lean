/-
Draws below a bound.

`next_usize` takes the high word of the product of a word and the bound, which is the word scaled
down from `2 ^ 64` to the bound: below it, in the order of the words, and each number from as many
words as any other, give or take one. A stream meets every word before it comes back, so the same
holds of the draws from it.
-/
import Scharnhorst.MultiplyShift
import Scharnhorst.RngStreams

set_option autoImplicit false

namespace Scharnhorst

open MultiplyShift

namespace SplitMix64

/-! ## One word -/

variable {x y bound : UInt64}

theorem product_lt (x bound : UInt64) : x.toNat * bound.toNat < 2 ^ 128 := by
  have hle := Nat.mul_le_mul x.toNat_lt.le bound.toNat_lt.le
  have hlt := Nat.mul_lt_mul_of_lt_of_le x.toNat_lt bound.toNat_lt.le (by decide)
  rwa [← Nat.pow_add] at hlt

/-- The product does not wrap. -/
theorem toNat_u128_product (x bound : UInt64) :
    (u128_product x bound).toNat = x.toNat * bound.toNat := by
  have hword : ∀ v : UInt64, v.toBitVec.toNat % 2 ^ 128 = v.toNat := fun v =>
    Nat.mod_eq_of_lt (v.toNat_lt.trans (by decide))
  rw [u128_product, BitVec.toNat_mul, BitVec.toNat_setWidth, BitVec.toNat_setWidth, hword, hword]
  exact Nat.mod_eq_of_lt (product_lt x bound)

/-- Nor is anything of the high word cut off. -/
theorem toNat_multiply_shift (x bound : UInt64) :
    (multiply_shift x bound).toNat = x.toNat * bound.toNat / 2 ^ 64 := by
  have hhigh : x.toNat * bound.toNat / 2 ^ 64 < 2 ^ 64 := by
    refine Nat.div_lt_of_lt_mul ?_
    rw [← Nat.pow_add]
    exact product_lt x bound
  rw [multiply_shift, UInt64.toNat_ofBitVec, BitVec.toNat_setWidth, BitVec.toNat_ushiftRight,
    toNat_u128_product, Nat.shiftRight_eq_div_pow]
  exact Nat.mod_eq_of_lt hhigh

theorem toNat_pos (h : bound ≠ 0) : 0 < bound.toNat :=
  Nat.pos_of_ne_zero fun hzero => h (UInt64.toNat_inj.mp hzero)

theorem multiply_shift_lt (h : bound ≠ 0) (x : UInt64) : multiply_shift x bound < bound := by
  rw [UInt64.lt_iff_toNat_lt, toNat_multiply_shift]
  exact scale_lt (toNat_pos h) x.toNat_lt

theorem multiply_shift_mono (h : x ≤ y) : multiply_shift x bound ≤ multiply_shift y bound := by
  rw [UInt64.le_iff_toNat_le, toNat_multiply_shift, toNat_multiply_shift]
  exact scale_mono (UInt64.le_iff_toNat_le.mp h)

/-! ## All words -/

theorem bijOn_toNat : Set.BijOn UInt64.toNat Set.univ (Set.Iio (2 ^ 64)) := by
  refine ⟨fun x _ => x.toNat_lt, fun x _ y _ h => UInt64.toNat_inj.mp h, fun n hn => ?_⟩
  exact ⟨.ofNat n, trivial, UInt64.toNat_ofNat_of_lt' hn⟩

/-- The words are counted as numbers, and so are the results. -/
theorem nearlyEven_multiply_shift (h : bound ≠ 0) :
    NearlyEven (fun x => multiply_shift x bound) Set.univ {r | r < bound} := by
  have hwords := (nearlyEven_scale (toNat_pos h) (Nat.two_pow_pos 64)).comp bijOn_toNat
  simp only [← toNat_multiply_shift] at hwords
  exact hwords.of_comp (fun _ _ => UInt64.toNat_inj.mp) fun _ => UInt64.lt_iff_toNat_lt.mp

theorem next_usize_eq (h : bound ≠ 0) (sm : SplitMix64) :
    sm.next_usize bound = (multiply_shift sm.next_u64.1 bound, sm.next_u64.2) :=
  if_neg h

/-- What is promised of a bound: a draw takes one word, and the words are spread over the numbers
below the bound. -/
structure DrawsFairly (bound : UInt64) : Prop where
  draw : ∀ sm : SplitMix64,
    sm.next_usize bound = (multiply_shift sm.next_u64.1 bound, sm.next_u64.2)
  product_exact : ∀ x : UInt64, (u128_product x bound).toNat = x.toNat * bound.toNat
  scaled : ∀ x : UInt64, (multiply_shift x bound).toNat = x.toNat * bound.toNat / 2 ^ 64
  below : ∀ x, multiply_shift x bound < bound
  nearly_even : NearlyEven (fun x => multiply_shift x bound) Set.univ {r | r < bound}
  ordered : ∀ x y, x ≤ y → multiply_shift x bound ≤ multiply_shift y bound

/-- Every bound but 0 is drawn for fairly. -/
theorem draws_fairly (bound : UInt64) (h : bound ≠ 0) : DrawsFairly bound where
  draw := next_usize_eq h
  product_exact x := toNat_u128_product x bound
  scaled x := toNat_multiply_shift x bound
  below := multiply_shift_lt h
  nearly_even := nearlyEven_multiply_shift h
  ordered _ _ := multiply_shift_mono

theorem die_draws_fairly : (6 : UInt64) ≠ 0 ∧ DrawsFairly 6 :=
  ⟨by decide, draws_fairly 6 (by decide)⟩

end SplitMix64

/-! ## A stream -/

namespace DeterministicRng

open SplitMix64

variable {bound : UInt64}

/-- The stream after `n` draws below `bound`. -/
def after_draws (rng : DeterministicRng) (bound : UInt64) : Nat → DeterministicRng
  | 0 => rng
  | n + 1 => ((rng.after_draws bound n).next_usize bound).2

def drawn (rng : DeterministicRng) (bound : UInt64) (n : Nat) : UInt64 :=
  ((rng.after_draws bound n).next_usize bound).1

/-- A draw is a call of `next_u64`, scaled down. -/
theorem next_usize_eq (h : bound ≠ 0) (rng : DeterministicRng) :
    rng.next_usize bound = (multiply_shift rng.next_u64.1 bound, rng.next_u64.2) := by
  rw [next_usize, SplitMix64.next_usize_eq h]
  rfl

theorem after_draws_eq (h : bound ≠ 0) (rng : DeterministicRng) (n : Nat) :
    rng.after_draws bound n = rng.after n := by
  induction n with
  | zero => rfl
  | succ n ih =>
    rw [after_draws, after, ih, next_usize_eq h]

theorem drawn_eq (h : bound ≠ 0) (rng : DeterministicRng) (n : Nat) :
    rng.drawn bound n = multiply_shift (rng.output n) bound := by
  rw [drawn, after_draws_eq h, next_usize_eq h]
  rfl

/-- The first `2 ^ 64` outputs are all words. -/
theorem output_bijOn (rng : DeterministicRng) :
    Set.BijOn rng.output (Set.Iio (2 ^ 64)) Set.univ := by
  have hinj : Set.InjOn (fun n => (rng.output n).toNat) (Set.Iio (2 ^ 64)) :=
    fun m hm n hn heq => rng.output_injOn hm hn (UInt64.toNat_inj.mp heq)
  have hall := bijOn_Iio (fun n _ => (rng.output n).toNat_lt) hinj
  refine ⟨fun _ _ => trivial, rng.output_injOn, fun x _ => ?_⟩
  obtain ⟨n, hn, hx⟩ := hall.surjOn (Set.mem_Iio.mpr x.toNat_lt)
  exact ⟨n, hn, UInt64.toNat_inj.mp hx⟩

/-- Until a stream repeats itself it gives each number below the bound as often as any other, or
once more. -/
theorem drawn_nearlyEven (rng : DeterministicRng) (h : bound ≠ 0) :
    NearlyEven (rng.drawn bound) (Set.Iio (2 ^ 64)) {r | r < bound} := by
  have hdrawn : rng.drawn bound = fun n => multiply_shift (rng.output n) bound :=
    funext (drawn_eq h rng)
  rw [hdrawn]
  exact (nearlyEven_multiply_shift h).comp rng.output_bijOn

end DeterministicRng

end Scharnhorst
