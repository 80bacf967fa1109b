/-
Numbers that stand for others.

`Near x a ε` says that `x` is at most `ε` away from `a`. What is computed from such numbers is near
what the exact ones give, and how near follows from the bounds alone.
-/
import Mathlib.Algebra.Order.Field.Basic
import Mathlib.Algebra.Order.Group.MinMax
import Mathlib.Tactic.FieldSimp
import Mathlib.Tactic.GCongr
import Mathlib.Tactic.Linarith
import Mathlib.Tactic.Ring

set_option autoImplicit false

namespace Approximation

variable {K : Type*} [Field K] [LinearOrder K] [IsStrictOrderedRing K]

def Near (x a ε : K) : Prop := |x - a| ≤ ε

variable {x y r a b ε δ u : K}

theorem near_self (x : K) : Near x x 0 := by
  rw [Near, sub_self, abs_zero]

theorem Near.nonneg (h : Near x a ε) : 0 ≤ ε := (abs_nonneg _).trans h

theorem Near.eq (h : Near x a ε) (hε : ε = 0) : x = a := by
  rw [Near, hε] at h
  exact sub_eq_zero.1 (abs_nonpos_iff.1 h)

/-- A result that is rounded is off by the rounding, too. -/
theorem Near.rounded (h : Near x a ε) (hr : |r - x| ≤ u) : Near r a (ε + u) := by
  calc |r - a| = |(x - a) + (r - x)| := by ring_nf
    _ ≤ |x - a| + |r - x| := abs_add_le _ _
    _ ≤ ε + u := add_le_add h hr

theorem Near.add (hx : Near x a ε) (hy : Near y b δ) : Near (x + y) (a + b) (ε + δ) := by
  calc |x + y - (a + b)| = |(x - a) + (y - b)| := by ring_nf
    _ ≤ |x - a| + |y - b| := abs_add_le _ _
    _ ≤ ε + δ := add_le_add hx hy

theorem Near.sub (hx : Near x a ε) (hy : Near y b δ) : Near (x - y) (a - b) (ε + δ) := by
  calc |x - y - (a - b)| = |(x - a) - (y - b)| := by ring_nf
    _ ≤ |x - a| + |y - b| := abs_sub _ _
    _ ≤ ε + δ := add_le_add hx hy

theorem Near.mul (hx : Near x a ε) (hy : Near y b δ) :
    Near (x * y) (a * b) (|a| * δ + |b| * ε + ε * δ) := by
  have hε := hx.nonneg
  calc |x * y - a * b| = |a * (y - b) + b * (x - a) + (x - a) * (y - b)| := by ring_nf
    _ ≤ |a * (y - b)| + |b * (x - a)| + |(x - a) * (y - b)| :=
      (abs_add_le _ _).trans (add_le_add_left (abs_add_le _ _) _)
    _ = |a| * |y - b| + |b| * |x - a| + |x - a| * |y - b| := by simp only [abs_mul]
    _ ≤ |a| * δ + |b| * ε + ε * δ := by
      unfold Near at hx hy
      gcongr

/-- The divisor must be further from zero than its own error. -/
theorem Near.div (hx : Near x a ε) (hy : Near y b δ) (hb : δ < |b|) :
    Near (x / y) (a / b) ((|a| * δ + |b| * ε) / (|b| * (|b| - δ))) := by
  have hb0 : 0 < |b| := hy.nonneg.trans_lt hb
  have hlow : |b| - δ ≤ |y| := by
    have htriangle : |b| ≤ |y| + |y - b| := by
      calc |b| = |y - (y - b)| := by ring_nf
        _ ≤ |y| + |y - b| := abs_sub _ _
    have hδ : |y - b| ≤ δ := hy
    linarith
  have hgap : 0 < |b| - δ := sub_pos.2 hb
  have hy0 : y ≠ 0 := abs_pos.1 (hgap.trans_le hlow)
  have hb' : b ≠ 0 := abs_pos.1 hb0
  have hnum : |b * (x - a) - a * (y - b)| ≤ |a| * δ + |b| * ε := by
    calc |b * (x - a) - a * (y - b)| ≤ |b * (x - a)| + |a * (y - b)| := abs_sub _ _
      _ = |b| * |x - a| + |a| * |y - b| := by simp only [abs_mul]
      _ ≤ |b| * ε + |a| * δ := by
        unfold Near at hx hy
        gcongr
      _ = |a| * δ + |b| * ε := add_comm _ _
  have hfraction : x / y - a / b = (b * (x - a) - a * (y - b)) / (b * y) := by
    field_simp
    ring
  rw [Near, hfraction, abs_div, abs_mul]
  gcongr
  exact (abs_nonneg _).trans hnum

/-- Exact numbers that are further apart than the errors are in the order of the others. -/
theorem Near.compare_eq (hx : Near x a ε) (hy : Near y b δ)
    (h : ε + δ < |a - b| ∨ ε + δ = 0) : compare x y = compare a b := by
  rcases h with hapart | hexact
  · obtain ⟨hx₁, hx₂⟩ := abs_le.1 hx
    obtain ⟨hy₁, hy₂⟩ := abs_le.1 hy
    rcases lt_trichotomy a b with hlt | rfl | hgt
    · rw [abs_of_neg (sub_neg.2 hlt)] at hapart
      rw [compare_lt_iff_lt.2 hlt, compare_lt_iff_lt]
      linarith
    · rw [sub_self, abs_zero] at hapart
      exact absurd hapart (not_lt.2 (add_nonneg hx.nonneg hy.nonneg))
    · rw [abs_of_pos (sub_pos.2 hgt)] at hapart
      rw [compare_gt_iff_gt.2 hgt, compare_gt_iff_gt]
      linarith
  · have hε : ε = 0 := by linarith [hx.nonneg, hy.nonneg]
    have hδ : δ = 0 := by linarith [hx.nonneg, hy.nonneg]
    rw [hx.eq hε, hy.eq hδ]

theorem Near.min (hx : Near x a ε) (hy : Near y b δ) : Near (min x y) (min a b) (max ε δ) :=
  (abs_min_sub_min_le_max x y a b).trans (max_le_max hx hy)

theorem Near.max (hx : Near x a ε) (hy : Near y b δ) : Near (max x y) (max a b) (max ε δ) :=
  (abs_max_sub_max_le_max x y a b).trans (max_le_max hx hy)

end Approximation
