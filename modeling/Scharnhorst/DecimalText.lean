/-
Decimal numbers, written out in full.

Nothing here is about the engine. A decimal is a sign, a mantissa and a power of ten. Written out
in full it has no exponent: the digits of the mantissa stand before zeros, around a point or
after it. Such a text is the text of an integer exactly if there is no point in it, with one
exception, the zero that has a sign. `text_eq_iff` is that statement.
-/
import Mathlib

set_option autoImplicit false

namespace Scharnhorst

/-! ## Digits of integers -/

namespace DecimalText

theorem toDigits_injective {m n : Nat} (h : Nat.toDigits 10 m = Nat.toDigits 10 n) : m = n := by
  apply Nat.repr_injective
  rw [← String.toList_inj, Nat.toList_repr, Nat.toList_repr, h]

/-- Ten times a number has a zero more. -/
theorem toDigits_shifted {m : Nat} (hm : 0 < m) (zeros : Nat) :
    Nat.toDigits 10 (m * 10 ^ zeros) = Nat.toDigits 10 m ++ List.replicate zeros '0' := by
  induction zeros with
  | zero => simp
  | succ zeros ih =>
    have hpos : 0 < m * 10 ^ zeros := Nat.mul_pos hm (Nat.pow_pos (by decide))
    have hlast := Nat.toDigits_append_toDigits (b := 10) (d := 0) (by decide) hpos (by decide)
    have hnext : m * 10 ^ (zeros + 1) = 10 * (m * 10 ^ zeros) + 0 := by
      rw [Nat.pow_succ]
      ring
    rw [hnext, ← hlast, ih, Nat.toDigits_zero, List.append_assoc, List.replicate_succ']

theorem isDigit_of_mem {n : Nat} {c : Char} (hc : c ∈ Nat.toDigits 10 n) : c.isDigit = true :=
  Nat.isDigit_of_mem_toDigits (by decide) (by decide) hc

theorem not_mem_digits {n : Nat} {c : Char} (hc : c.isDigit = false) : c ∉ Nat.toDigits 10 n := by
  intro hmem
  rw [isDigit_of_mem hmem] at hc
  cases hc

theorem toList_toString (i : Int) :
    (toString i).toList =
      if i < 0 then '-' :: Nat.toDigits 10 i.natAbs else Nat.toDigits 10 i.natAbs := by
  rw [Int.toString_eq_repr, Int.repr_eq_if]
  by_cases hi : i < 0
  · have habs : (-i).toNat = i.natAbs := by omega
    rw [if_neg (by omega), if_pos hi, habs, String.toList_append, Nat.toList_repr]
    rfl
  · have habs : i.toNat = i.natAbs := by omega
    rw [if_pos (by omega), if_neg hi, habs, Nat.toList_repr]

/-- A sign and digits can be told from other ones. -/
theorem signed_digits_iff {p q : Prop} [Decidable p] [Decidable q] {m n : Nat} :
    (if p then '-' :: Nat.toDigits 10 m else Nat.toDigits 10 m) =
        (if q then '-' :: Nat.toDigits 10 n else Nat.toDigits 10 n) ↔ (p ↔ q) ∧ m = n := by
  have hminus : ∀ k, '-' ∉ Nat.toDigits 10 k := fun k => not_mem_digits (by decide)
  have hdigits : Nat.toDigits 10 m = Nat.toDigits 10 n ↔ m = n :=
    ⟨toDigits_injective, fun h => by rw [h]⟩
  by_cases hp : p <;> by_cases hq : q
  · rw [if_pos hp, if_pos hq, List.cons.injEq, hdigits]
    simp [hp, hq]
  · rw [if_pos hp, if_neg hq]
    refine ⟨fun h => absurd ?_ (hminus n), fun h => absurd (h.1.1 hp) hq⟩
    rw [← h]
    exact List.mem_cons_self
  · rw [if_neg hp, if_pos hq]
    refine ⟨fun h => absurd ?_ (hminus m), fun h => absurd (h.1.2 hq) hp⟩
    rw [h]
    exact List.mem_cons_self
  · rw [if_neg hp, if_neg hq, hdigits]
    simp [hp, hq]

/-- Beside digits there is the sign in it at most. -/
theorem not_mem_integer {i : Int} {c : Char} (hdigit : c.isDigit = false) (hminus : c ≠ '-') :
    c ∉ (toString i).toList := by
  rw [toList_toString]
  intro hmem
  split at hmem
  · rcases List.mem_cons.1 hmem with h | h
    · exact hminus h
    · exact not_mem_digits hdigit h
  · exact not_mem_digits hdigit hmem

end DecimalText

open DecimalText

/-! ## Decimals -/

/-- `mantissa` times a power of ten, with a sign, which a zero has too. -/
structure Digits where
  negative : Bool
  mantissa : Nat
  exponent : Int
  zero : mantissa = 0 → exponent = 0
deriving DecidableEq

namespace Digits

/-- With `places` digits after the point. -/
def with_point (digits : List Char) (places : Nat) : List Char :=
  if places < digits.length then
    digits.take (digits.length - places) ++ '.' :: digits.drop (digits.length - places)
  else '0' :: '.' :: (List.replicate (places - digits.length) '0' ++ digits)

def unsigned_text (d : Digits) : List Char :=
  match d.exponent with
  | .ofNat zeros => Nat.toDigits 10 d.mantissa ++ List.replicate zeros '0'
  | .negSucc k => with_point (Nat.toDigits 10 d.mantissa) (k + 1)

/-- Written out in full, as `f64` is by `Display`. -/
def text (d : Digits) : String :=
  .ofList (if d.negative then '-' :: d.unsigned_text else d.unsigned_text)

/-- The integer that it is. A zero with a sign is none. -/
def integer (d : Digits) : Option Int :=
  if d.exponent < 0 ∨ (d.negative ∧ d.mantissa = 0) then none
  else
    let magnitude := d.mantissa * 10 ^ d.exponent.toNat
    some (if d.negative then -magnitude else magnitude)

variable {d : Digits}

theorem toList_text :
    d.text.toList = if d.negative then '-' :: d.unsigned_text else d.unsigned_text := by
  rw [text, String.toList_ofList]

theorem unsigned_text_whole (h : 0 ≤ d.exponent) :
    d.unsigned_text = Nat.toDigits 10 (d.mantissa * 10 ^ d.exponent.toNat) := by
  obtain ⟨zeros, hexp⟩ := Int.eq_ofNat_of_zero_le h
  have hdigits : d.unsigned_text = Nat.toDigits 10 d.mantissa ++ List.replicate zeros '0' := by
    rw [unsigned_text, hexp]
  rw [hdigits, hexp, Int.toNat_natCast]
  rcases Nat.eq_zero_or_pos d.mantissa with hzero | hpos
  · have hnone : zeros = 0 := by
      have := d.zero hzero
      omega
    simp [hzero, hnone]
  · exact (toDigits_shifted hpos zeros).symm

theorem unsigned_text_point (h : d.exponent < 0) :
    ∃ k, d.unsigned_text = with_point (Nat.toDigits 10 d.mantissa) (k + 1) := by
  obtain ⟨k, hexp⟩ := Int.eq_negSucc_of_lt_zero h
  exact ⟨k, by rw [unsigned_text, hexp]⟩

theorem point_mem (h : d.exponent < 0) : '.' ∈ d.text.toList := by
  have hpoint : '.' ∈ d.unsigned_text := by
    obtain ⟨k, htext⟩ := unsigned_text_point h
    rw [htext]
    unfold with_point
    split <;> simp
  rw [toList_text]
  split
  · exact List.mem_cons_of_mem _ hpoint
  · exact hpoint

theorem mem_unsigned_text {c : Char} (hc : c ∈ d.unsigned_text) : c.isDigit = true ∨ c = '.' := by
  by_cases h : d.exponent < 0
  · obtain ⟨k, htext⟩ := unsigned_text_point h
    rw [htext] at hc
    unfold with_point at hc
    split at hc
    · simp only [List.mem_append, List.mem_cons] at hc
      rcases hc with hbefore | rfl | hafter
      · exact .inl (isDigit_of_mem (List.mem_of_mem_take hbefore))
      · exact .inr rfl
      · exact .inl (isDigit_of_mem (List.mem_of_mem_drop hafter))
    · simp only [List.mem_append, List.mem_cons] at hc
      rcases hc with rfl | rfl | hzero | hdigit
      · exact .inl (by decide)
      · exact .inr rfl
      · exact .inl (by rw [List.eq_of_mem_replicate hzero]; decide)
      · exact .inl (isDigit_of_mem hdigit)
  · rw [unsigned_text_whole (by omega)] at hc
    exact .inl (isDigit_of_mem hc)

/-- What the text is made of. -/
theorem mem_text {c : Char} (hc : c ∈ d.text.toList) : c.isDigit = true ∨ c = '-' ∨ c = '.' := by
  have hcases : c = '-' ∨ c ∈ d.unsigned_text := by
    rw [toList_text] at hc
    split at hc
    · exact List.mem_cons.1 hc
    · exact .inr hc
  rcases hcases with hminus | hmem
  · exact .inr (.inl hminus)
  · rcases mem_unsigned_text hmem with hdigit | hpoint
    · exact .inl hdigit
    · exact .inr (.inr hpoint)

theorem integer_eq_some_iff {i : Int} :
    d.integer = some i ↔ 0 ≤ d.exponent ∧ (d.negative = true ↔ i < 0) ∧
      d.mantissa * 10 ^ d.exponent.toNat = i.natAbs := by
  have hzero : d.mantissa * 10 ^ d.exponent.toNat = 0 ↔ d.mantissa = 0 := by simp
  unfold integer
  dsimp only
  generalize d.mantissa * 10 ^ d.exponent.toNat = magnitude at hzero ⊢
  -- no integer has digits after the point, or a sign before a zero
  by_cases hnone : d.exponent < 0 ∨ (d.negative = true ∧ d.mantissa = 0)
  · rw [if_pos hnone]
    constructor
    · intro h
      cases h
    · rintro ⟨hexp, hsign, hn⟩
      rcases hnone with hpoint | ⟨hneg, hnought⟩
      · omega
      · have hi := hsign.1 hneg
        have hm := hzero.2 hnought
        omega
  · rw [if_neg hnone, Option.some.injEq]
    by_cases hneg : d.negative = true
    · have hm : magnitude ≠ 0 := by
        intro hm
        exact hnone (.inr ⟨hneg, hzero.1 hm⟩)
      rw [if_pos hneg]
      simp only [hneg, true_iff]
      omega
    · rw [if_neg hneg]
      simp only [hneg, Bool.false_eq_true, false_iff]
      omega

/-- The text is that of an integer exactly if the decimal is this integer. -/
theorem text_eq_iff {i : Int} : d.text = toString i ↔ d.integer = some i := by
  rw [integer_eq_some_iff, ← String.toList_inj]
  by_cases hexp : d.exponent < 0
  · -- there is no point in the text of an integer
    constructor
    · intro htext
      have hpoint := point_mem hexp
      rw [htext] at hpoint
      exact absurd hpoint (not_mem_integer (by decide) (by decide))
    · intro h
      omega
  · rw [toList_text, toList_toString, unsigned_text_whole (by omega), signed_digits_iff]
    exact ⟨fun h => ⟨by omega, h⟩, fun h => h.2⟩

end Digits

end Scharnhorst
