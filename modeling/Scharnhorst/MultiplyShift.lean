/-
Numbers scaled down by a product and a quotient.

`x * b / n` sends the numbers below `n` to those below `b`, in their order. The numbers with one
result are a range between two multiples of `n / b`, both rounded up, so a result is taken `n / b`
times or once more. How often a map takes a value does not change when its arguments are renamed.
-/
import Mathlib.Algebra.Order.Floor.Div
import Mathlib.Data.Set.Card
import Mathlib.Order.Interval.Finset.Nat

set_option autoImplicit false

namespace MultiplyShift

/-! ## How often a value is taken -/

section Counts

variable {α β γ : Type*} {f : α → β} {s : Set α} {t : Set β}

/-- No value in `t` is taken on `s` more often than another one and once. -/
def NearlyEven (f : α → β) (s : Set α) (t : Set β) : Prop :=
  ∀ r ∈ t, ∀ r' ∈ t, {a ∈ s | f a = r}.ncard ≤ {a ∈ s | f a = r'}.ncard + 1

theorem NearlyEven.of_bounds {q : Nat}
    (h : ∀ r ∈ t, q ≤ {a ∈ s | f a = r}.ncard ∧ {a ∈ s | f a = r}.ncard ≤ q + 1) :
    NearlyEven f s t := by
  intro r hr r' hr'
  exact (h r hr).2.trans (Nat.add_le_add_right (h r' hr').1 1)

theorem ncard_comp {g : γ → α} {u : Set γ} (hg : Set.BijOn g u s) (r : β) :
    {c ∈ u | f (g c) = r}.ncard = {a ∈ s | f a = r}.ncard := by
  refine Set.BijOn.ncard_eq (f := g) ⟨fun c hc => ⟨hg.mapsTo hc.1, hc.2⟩,
    hg.injOn.mono fun c hc => hc.1, fun a ha => ?_⟩
  obtain ⟨c, hc, rfl⟩ := hg.surjOn ha.1
  exact ⟨c, ⟨hc, ha.2⟩, rfl⟩

theorem NearlyEven.comp {g : γ → α} {u : Set γ} (h : NearlyEven f s t) (hg : Set.BijOn g u s) :
    NearlyEven (fun c => f (g c)) u t := by
  intro r hr r' hr'
  rw [ncard_comp hg r, ncard_comp hg r']
  exact h r hr r' hr'

/-- Results may be renamed as well. -/
theorem NearlyEven.of_comp {δ : Type*} {i : β → δ} {t' : Set δ}
    (h : NearlyEven (fun a => i (f a)) s t') (hi : Function.Injective i) (ht : Set.MapsTo i t t') :
    NearlyEven f s t := by
  intro r hr r' hr'
  have hcounts := h (i r) (ht hr) (i r') (ht hr')
  simpa only [hi.eq_iff] using hcounts

/-- A map of the numbers below `n` to themselves that sends no two to one misses none. -/
theorem bijOn_Iio {n : Nat} {g : Nat → Nat} (hmaps : Set.MapsTo g (Set.Iio n) (Set.Iio n))
    (hinj : Set.InjOn g (Set.Iio n)) : Set.BijOn g (Set.Iio n) (Set.Iio n) := by
  refine ⟨hmaps, hinj, ?_⟩
  rw [← Finset.coe_range] at hmaps hinj ⊢
  exact Finset.surjOn_of_injOn_of_card_le g hmaps hinj le_rfl

end Counts

/-! ## Scaled numbers -/

section Scaled

variable {n b x y r : Nat}

theorem scale_lt (hb : 0 < b) (hx : x < n) : x * b / n < b := by
  refine Nat.div_lt_of_lt_mul ?_
  exact Nat.mul_lt_mul_of_pos_right hx hb

theorem scale_mono (h : x ≤ y) : x * b / n ≤ y * b / n :=
  Nat.div_le_div_right (Nat.mul_le_mul_right b h)

theorem scale_eq_iff (hb : 0 < b) (hn : 0 < n) :
    x * b / n = r ↔ (r * n) ⌈/⌉ b ≤ x ∧ x < ((r + 1) * n) ⌈/⌉ b := by
  rw [← not_le, ceilDiv_le_iff_le_mul hb, ceilDiv_le_iff_le_mul hb, not_le, Nat.mul_comm b x,
    ← Nat.le_div_iff_mul_le hn, ← Nat.div_lt_iff_lt_mul hn]
  omega

/-- The numbers with one result are a range. -/
theorem fiber_scale (hb : 0 < b) (hn : 0 < n) (hr : r < b) :
    {x ∈ Set.Iio n | x * b / n = r} = ↑(Finset.Ico ((r * n) ⌈/⌉ b) (((r + 1) * n) ⌈/⌉ b)) := by
  have hlast : ((r + 1) * n) ⌈/⌉ b ≤ n :=
    (ceilDiv_le_iff_le_mul hb).mpr (Nat.mul_le_mul_right n hr)
  ext x
  rw [Finset.coe_Ico, Set.mem_Ico, ← scale_eq_iff hb hn]
  refine and_iff_right_of_imp fun hx => ?_
  exact ((scale_eq_iff hb hn).mp hx).2.trans_le hlast

/-- From one border to the next it is `n / b`, or one more. -/
theorem ceil_gap (hb : 0 < b) :
    (r * n) ⌈/⌉ b + n / b ≤ ((r + 1) * n) ⌈/⌉ b
      ∧ ((r + 1) * n) ⌈/⌉ b ≤ (r * n) ⌈/⌉ b + (n / b + 1) := by
  have hstart : r * n ≤ b * ((r * n) ⌈/⌉ b) := (ceilDiv_le_iff_le_mul hb).mp le_rfl
  have hend : (r + 1) * n ≤ b * (((r + 1) * n) ⌈/⌉ b) := (ceilDiv_le_iff_le_mul hb).mp le_rfl
  have hquot : b * (n / b) ≤ n := Nat.mul_div_le n b
  have hover : n < b * (n / b + 1) := Nat.lt_mul_div_succ n hb
  have hsucc : (r + 1) * n = r * n + n := Nat.succ_mul r n
  constructor
  -- what is below the next border by `n / b` is not before this one
  · have hroom : n / b ≤ ((r + 1) * n) ⌈/⌉ b := by
      refine Nat.le_of_mul_le_mul_left (hquot.trans (le_trans ?_ hend)) hb
      omega
    have hback : (r * n) ⌈/⌉ b ≤ ((r + 1) * n) ⌈/⌉ b - n / b := by
      rw [ceilDiv_le_iff_le_mul hb, Nat.mul_sub]
      omega
    omega
  · rw [ceilDiv_le_iff_le_mul hb, Nat.mul_add]
    omega

theorem ncard_scale (hb : 0 < b) (hn : 0 < n) (hr : r < b) :
    n / b ≤ {x ∈ Set.Iio n | x * b / n = r}.ncard
      ∧ {x ∈ Set.Iio n | x * b / n = r}.ncard ≤ n / b + 1 := by
  obtain ⟨hmin, hmax⟩ := @ceil_gap n b r hb
  rw [fiber_scale hb hn hr, Set.ncard_coe_finset, Nat.card_Ico]
  exact ⟨Nat.le_sub_of_add_le' hmin, Nat.sub_le_iff_le_add'.mpr hmax⟩

theorem nearlyEven_scale (hb : 0 < b) (hn : 0 < n) :
    NearlyEven (fun x => x * b / n) (Set.Iio n) (Set.Iio b) :=
  .of_bounds fun _ hr => ncard_scale hb hn hr

end Scaled

end MultiplyShift
