/-
Words of `w` bits and the operations that a mixing function is made of.

An xor with the word shifted right is undone from the top bit down, a product with an odd
word by its inverse modulo `2^w`, and adding an odd word again and again meets every word
once before it comes back. None of them maps two words to one.
-/
import Mathlib.Data.BitVec
import Mathlib.Data.Nat.Prime.Basic
import Mathlib.Data.Set.Function
import Mathlib.Algebra.Group.Units.Basic

set_option autoImplicit false

namespace WordMixing

variable {w : Nat}

/-- A word that is its own shift is zero. -/
theorem eq_zero_of_eq_ushiftRight {k : Nat} (hk : 0 < k) {d : BitVec w} (h : d = d >>> k) :
    d = 0#w := by
  have hval : d.toNat = d.toNat / 2 ^ k := by
    have := congrArg BitVec.toNat h
    rwa [BitVec.toNat_ushiftRight, Nat.shiftRight_eq_div_pow] at this
  have hpow : 1 < 2 ^ k := Nat.one_lt_two_pow (by omega)
  apply BitVec.eq_of_toNat_eq
  rw [BitVec.toNat_zero]
  by_contra hne
  have := Nat.div_lt_self (Nat.pos_of_ne_zero hne) hpow
  omega

theorem xor_ushiftRight_injective {k : Nat} (hk : 0 < k) :
    Function.Injective fun x : BitVec w => x ^^^ (x >>> k) := by
  intro x y h
  -- what the two words differ in is its own shift
  have hdiff : x ^^^ y = (x ^^^ y) >>> k := by
    have hboth : x ^^^ (x >>> k) = y ^^^ (y >>> k) := h
    rw [BitVec.ushiftRight_xor_distrib]
    calc x ^^^ y
        = x ^^^ (x >>> k) ^^^ (x >>> k) ^^^ y := by
          rw [BitVec.xor_assoc x, BitVec.xor_self, BitVec.xor_zero]
      _ = y ^^^ (y >>> k) ^^^ (x >>> k) ^^^ y := by rw [hboth]
      _ = (x >>> k) ^^^ (y >>> k) ^^^ (y ^^^ y) := by ac_rfl
      _ = (x >>> k) ^^^ (y >>> k) := by rw [BitVec.xor_self, BitVec.xor_zero]
  have hzero := eq_zero_of_eq_ushiftRight hk hdiff
  exact BitVec.xor_eq_zero_iff.mp hzero

/-- An odd word has an inverse. -/
theorem isUnit_of_odd {c : BitVec w} (h : Odd c.toNat) : IsUnit c := by
  by_cases hw : w = 0
  · subst hw
    rw [BitVec.of_length_zero (x := c)]
    exact isUnit_one
  · have hcop : Nat.Coprime c.toNat (2 ^ w) := h.coprime_two_right.pow_right w
    obtain ⟨i, -, hi⟩ :=
      Nat.exists_mul_mod_eq_one_of_coprime hcop (Nat.one_lt_two_pow hw)
    refine .of_mul_eq_one (BitVec.ofNat w i) ?_
    apply BitVec.eq_of_toNat_eq
    rw [BitVec.toNat_mul, BitVec.toNat_ofNat, Nat.mul_mod_mod, hi]
    exact (Nat.mod_eq_of_lt (Nat.one_lt_two_pow hw)).symm

theorem mul_injective_of_odd {c : BitVec w} (h : Odd c.toNat) :
    Function.Injective fun x : BitVec w => x * c :=
  (isUnit_of_odd h).mul_left_injective

/-- The first `2^w` words of a walk by an odd step are all different. -/
theorem walk_injOn (start : BitVec w) {step : BitVec w} (h : Odd step.toNat) :
    Set.InjOn (fun n : Nat => start + BitVec.ofNat w n * step) (Set.Iio (2 ^ w)) := by
  intro m hm n hn heq
  have hmul : BitVec.ofNat w m * step = BitVec.ofNat w n * step :=
    (BitVec.add_right_inj start).mp heq
  have hword := congrArg BitVec.toNat (mul_injective_of_odd h hmul)
  rwa [BitVec.toNat_ofNat, BitVec.toNat_ofNat, Nat.mod_eq_of_lt hm, Nat.mod_eq_of_lt hn] at hword

end WordMixing
