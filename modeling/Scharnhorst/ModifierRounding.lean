/-
How far a modified value is from the real one.

A modifier is brought to the scale of the base before it is used. A summand that is rounded there
is off by half a unit at most, and so is the sum. A factor that is rounded is off by half a unit
too, but the base multiplies what it is off by: on a column of integers, `1.1` is a `1`, and ten
percent of a thousand are lost. So a product is the real one up to a unit as long as the base is
small for the digits that the factor loses, and `Close` says how small, with the digits that the
product itself cuts off.

The aggregate of a field takes such steps one after the other, each from the result of the one
before.
-/
import Mathlib.Tactic.FieldSimp
import Mathlib.Tactic.LinearCombination
import Scharnhorst.Overrides

set_option autoImplicit false

namespace Scharnhorst

open Decimal

/-! ## Digits that go -/

namespace FixedPoint

/-- How many digits of the value stand beyond the scale. -/
def places (x : FixedPoint) (s : UInt32) : Nat := if x.scale ≤ s then 0 else (x.scale - s).toNat

/-- What rounding at the scale takes from the value, counted in the last of these digits. -/
def beyond (x : FixedPoint) (s : UInt32) : Int :=
  if x.scale ≤ s then 0 else x.raw.toInt - x.scaled s * 10 ^ x.places s

/-- One unit of the scale. -/
def unit (s : UInt32) : ℚ := decimal 1 s.toNat

/-- The value, from its rounding and what went. -/
theorem value_eq_scaled (x : FixedPoint) (s : UInt32) :
    x.value = decimal (x.scaled s * 10 ^ x.places s + x.beyond s) (s.toNat + x.places s) := by
  unfold beyond places value
  by_cases hle : x.scale ≤ s
  · have hscale : s.toNat = x.scale.toNat + (s - x.scale).toNat := by
      rw [toNat_sub_scale hle]
      have := UInt32.le_iff_toNat_le.1 hle
      omega
    rw [if_pos hle, if_pos hle, pow_zero, mul_one, add_zero, add_zero, scaled, if_pos hle, hscale,
      decimal_shift]
  · have hlt : s ≤ x.scale := UInt32.le_of_lt (UInt32.not_le.1 hle)
    have hscale : s.toNat + (x.scale - s).toNat = x.scale.toNat := by
      rw [toNat_sub_scale hlt]
      have := UInt32.le_iff_toNat_le.1 hlt
      omega
    rw [if_neg hle, if_neg hle, hscale]
    congr 1
    ring

/-- At most half a unit goes. -/
theorem beyond_le (x : FixedPoint) (s : UInt32) : 2 * |x.beyond s| ≤ 10 ^ x.places s := by
  unfold beyond places
  by_cases hle : x.scale ≤ s
  · rw [if_pos hle, if_pos hle]
    norm_num
  · rw [if_neg hle, if_neg hle, scaled, if_neg hle]
    exact (nearestEven_round_tdiv (by positivity)).near

end FixedPoint

open FixedPoint

/-! ## Distances of decimals -/

/-- A sum with a rounded summand is off by what was rounded. -/
theorem sum_off {b w e : Int} {s k : Nat} :
    decimal (b + w) s - (decimal b s + decimal (w * 10 ^ k + e) (s + k)) = -decimal e (s + k) := by
  rw [decimal_add, decimal_add, decimal_shift]
  ring

/-- A product with a rounded factor, cut off, is off by what both have taken. -/
theorem product_off {b w e : Int} {s k : Nat} :
    decimal ((b * w).tdiv (10 ^ s)) s - decimal b s * decimal (w * 10 ^ k + e) (s + k) =
      -decimal (b * e + (b * w).tmod (10 ^ s) * 10 ^ k) (s + s + k) := by
  have hdiv := Int.mul_tdiv_add_tmod (b * w) (10 ^ s)
  generalize (b * w).tdiv (10 ^ s) = q at *
  generalize (b * w).tmod (10 ^ s) = m at *
  have hcast : ((b : ℚ) * w) = 10 ^ s * q + m := by
    exact_mod_cast hdiv.symm
  have hlong : (10 : ℚ) ^ (s + s + k) = 10 ^ s * 10 ^ s * 10 ^ k := by rw [pow_add, pow_add]
  have hs : (10 : ℚ) ^ s ≠ 0 := by positivity
  have hk : (10 : ℚ) ^ k ≠ 0 := by positivity
  unfold decimal
  push_cast
  rw [hlong, pow_add]
  generalize (10 : ℚ) ^ s = unit at *
  generalize (10 : ℚ) ^ k = gap at *
  field_simp
  linear_combination (-gap) * hcast

/-- What a decimal is worth against a unit. -/
theorem abs_decimal_lt_iff {m : Int} {s k : Nat} :
    |decimal m (s + k)| < decimal 1 s ↔ |m| < 10 ^ k := by
  have hs : (0 : ℚ) < 10 ^ s := by positivity
  have hk : (0 : ℚ) < 10 ^ k := by positivity
  unfold decimal
  have hsk : (0 : ℚ) < 10 ^ (s + k) := by positivity
  rw [abs_div, abs_of_pos hsk, div_lt_div_iff₀ hsk hs, pow_add, Int.cast_one, one_mul, mul_comm |(m : ℚ)|, mul_lt_mul_iff_right₀ hs]
  exact_mod_cast Iff.rfl

theorem abs_decimal_le_half {m : Int} {s k : Nat} (h : 2 * |m| ≤ 10 ^ k) :
    |decimal m (s + k)| ≤ decimal 1 s / 2 := by
  have hs : (0 : ℚ) < 10 ^ s := by positivity
  have hk : (0 : ℚ) < 10 ^ k := by positivity
  have hcast : 2 * |(m : ℚ)| ≤ 10 ^ k := by exact_mod_cast h
  unfold decimal
  rw [abs_div, abs_of_pos (show (0 : ℚ) < 10 ^ (s + k) by positivity), pow_add, Int.cast_one,
    div_div, div_le_div_iff₀ (by positivity) (by positivity)]
  nlinarith

/-! ## One modifier -/

namespace Modifier

variable {m : Modifier} {base r : FixedPoint}

/-- The result has the scale of the base, and is the real one up to half a unit, or less than
one for a product. -/
structure Exact (m : Modifier) (base r : FixedPoint) : Prop where
  scale : r.scale = base.scale
  add : m.op = .Add → |r.value - (base.value + m.value.value)| ≤ unit base.scale / 2
  mul : m.op = .Mul → |r.value - base.value * m.value.value| < unit base.scale

/-- The base times the digits that the factor loses, and the digits that the product with the
rounded factor loses, come to less than a unit. -/
def Close (m : Modifier) (base : FixedPoint) : Prop :=
  let s := base.scale
  m.op = .Mul →
    |base.raw.toInt * m.value.beyond s +
        (base.raw.toInt * m.value.scaled s).tmod (10 ^ s.toNat) * 10 ^ m.value.places s| <
      10 ^ (s.toNat + m.value.places s)

theorem add_exact (hop : m.op = .Add) (h : m.apply base = .ok r) : m.Exact base r := by
  obtain ⟨-, hscale, hraw⟩ := (apply_add_ok hop).1 h
  refine ⟨hscale, fun _ => ?_, fun hmul => ?_⟩
  · have hoff : r.value - (base.value + m.value.value) = -decimal (m.value.beyond base.scale)
        (base.scale.toNat + m.value.places base.scale) := by
      rw [value_eq_scaled m.value base.scale, FixedPoint.value, hscale, hraw, FixedPoint.value,
        sum_off]
    rw [hoff, abs_neg]
    exact abs_decimal_le_half (beyond_le m.value base.scale)
  · rw [hop] at hmul
    cases hmul

theorem mul_exact_iff (hop : m.op = .Mul) (h : m.apply base = .ok r) :
    m.Exact base r ↔ m.Close base := by
  obtain ⟨-, -, -, hscale, hraw⟩ := (apply_mul_ok hop).1 h
  have hoff := product_off (b := base.raw.toInt) (w := m.value.scaled base.scale)
    (e := m.value.beyond base.scale) (s := base.scale.toNat) (k := m.value.places base.scale)
  have hvalue : r.value - base.value * m.value.value =
      decimal ((base.raw.toInt * m.value.scaled base.scale).tdiv (10 ^ base.scale.toNat))
        base.scale.toNat - decimal base.raw.toInt base.scale.toNat *
        decimal (m.value.scaled base.scale * 10 ^ m.value.places base.scale +
          m.value.beyond base.scale) (base.scale.toNat + m.value.places base.scale) := by
    rw [value_eq_scaled m.value base.scale, FixedPoint.value, hscale, hraw, FixedPoint.value]
  have hiff : |r.value - base.value * m.value.value| < unit base.scale ↔ m.Close base := by
    rw [hvalue, hoff, abs_neg, unit, add_assoc, abs_decimal_lt_iff]
    exact ⟨fun h _ => h, fun h => h hop⟩
  constructor
  · intro hexact
    exact hiff.1 (hexact.mul hop)
  · intro hclose
    refine ⟨hscale, fun hadd => ?_, fun _ => hiff.2 hclose⟩
    rw [hop] at hadd
    cases hadd

theorem exact_iff (hop : m.op ≠ .Override) (h : m.apply base = .ok r) :
    m.Exact base r ↔ m.Close base := by
  rcases hm : m.op with _ | _ | _
  · refine ⟨fun _ hmul => ?_, fun _ => add_exact hm h⟩
    rw [hm] at hmul
    cases hmul
  · exact mul_exact_iff hm h
  · exact absurd hm hop

/-- On an integer, a factor is close if the integer times what the factor is off by is below
one. -/
theorem close_integer (hop : m.op = .Mul) (hinteger : base.scale = 0) :
    m.Close base ↔ |base.raw.toInt * m.value.beyond 0| < 10 ^ m.value.places 0 := by
  have hzero : (0 : UInt32).toNat = 0 := rfl
  unfold Close
  rw [hinteger]
  simp only [hzero, pow_zero, Int.tmod_one, zero_mul, add_zero, zero_add]
  exact ⟨fun h => h hop, fun h _ => h⟩

end Modifier

/-! ## A field -/

/-- Each of the modifiers is applied to what the ones before it came to, and does `P` there. The
last result is `r`. -/
def Steps (P : Modifier → FixedPoint → FixedPoint → Prop) :
    FixedPoint → List Modifier → FixedPoint → Prop
  | acc, [], r => r = acc
  | acc, m :: mods, r => ∃ next, m.apply acc = .ok next ∧ P m acc next ∧ Steps P next mods r

theorem steps_congr {P Q : Modifier → FixedPoint → FixedPoint → Prop} {mods : List Modifier}
    (h : ∀ m ∈ mods, ∀ acc next, m.apply acc = .ok next → (P m acc next ↔ Q m acc next))
    (acc r : FixedPoint) : Steps P acc mods r ↔ Steps Q acc mods r := by
  induction mods generalizing acc with
  | nil => exact Iff.rfl
  | cons m mods ih =>
    have hrest := ih fun n hn => h n (List.mem_cons_of_mem m hn)
    have hfirst := h m List.mem_cons_self acc
    simp only [Steps]
    constructor
    · rintro ⟨next, hnext, hP, hsteps⟩
      exact ⟨next, hnext, (hfirst next hnext).1 hP, (hrest next).1 hsteps⟩
    · rintro ⟨next, hnext, hQ, hsteps⟩
      exact ⟨next, hnext, (hfirst next hnext).2 hQ, (hrest next).2 hsteps⟩

/-- The loop takes these steps. -/
theorem foldlM_eq_steps {mods : List Modifier} {acc r : FixedPoint} :
    mods.foldlM (fun acc m => m.apply acc) acc = .ok r ↔ Steps (fun _ _ _ => True) acc mods r := by
  induction mods generalizing acc with
  | nil =>
    constructor
    · intro h
      exact (Except.ok.inj h).symm
    · intro h
      exact congrArg Except.ok h.symm
  | cons m mods ih =>
    rw [List.foldlM_cons, ReadOnly.bind_eq_ok]
    simp only [Steps, true_and]
    exact exists_congr fun next => and_congr_right fun _ => ih

namespace ModifierRegistry

/-- The sums of a field and then its products. -/
def stages (self : ModifierRegistry) (table column : String) : List Modifier :=
  self.of_op table column .Add ++ self.of_op table column .Mul

theorem aggregate_steps {self : ModifierRegistry} {table column : String} {base r : FixedPoint}
    (hnone : self.of_op table column .Override = []) :
    self.aggregate table column base = .ok r ↔
      Steps (fun _ _ _ => True) base (self.stages table column) r := by
  rw [aggregate_eq, hnone, stages, ← foldlM_eq_steps, List.foldlM_append]
  simp only [List.getLast?_nil]
  exact Iff.of_eq (congrArg (· = Except.ok r) (bind_pure _))

/-- A sum is exact, and a product exactly if its factor is close to the base. The aggregate of a
field is the real result up to the rounding of its steps exactly if every factor is close to what
it is applied to. -/
theorem modifiers_exact_iff (self : ModifierRegistry) (table column : String)
    (base r : FixedPoint) :
    (∀ m : Modifier, m.op ≠ .Override → m.apply base = .ok r → (m.Exact base r ↔ m.Close base)) ∧
    (self.of_op table column .Override = [] → self.aggregate table column base = .ok r →
      (Steps Modifier.Exact base (self.stages table column) r ↔
        Steps (fun m acc _ => m.Close acc) base (self.stages table column) r)) := by
  refine ⟨fun m => Modifier.exact_iff, fun hnone haggregate => ?_⟩
  apply steps_congr
  intro m hm acc next hnext
  apply Modifier.exact_iff _ hnext
  rcases List.mem_append.1 hm with hadd | hmul
  · rw [self.op_of_op table column m hadd]
    decide
  · rw [self.op_of_op table column m hmul]
    decide

/-- Half as much again. -/
def half_more : Modifier := { op := .Mul, value := .new 150 2 }

theorem half_more_close : half_more.Close (.new 1000 2) := by
  intro _
  decide +kernel

/-- Ten and half as much again, with two digits after the point, are fifteen. -/
theorem half_more_exact :
    half_more.Exact (.new 1000 2) (.new 1500 2) ∧
      Steps Modifier.Exact (.new 1000 2)
        ((ModifierRegistry.new.register "actor" "treasury" half_more).stages "actor" "treasury")
        (.new 1500 2) := by
  have happly : half_more.apply (.new 1000 2) = .ok (.new 1500 2) := by decide +kernel
  have haggregate : (ModifierRegistry.new.register "actor" "treasury" half_more).aggregate "actor"
      "treasury" (.new 1000 2) = .ok (.new 1500 2) := by decide +kernel
  obtain ⟨hone, hfield⟩ := modifiers_exact_iff
    (ModifierRegistry.new.register "actor" "treasury" half_more) "actor" "treasury"
    (.new 1000 2) (.new 1500 2)
  refine ⟨(hone half_more (by decide) happly).2 half_more_close, ?_⟩
  exact (hfield (by decide +kernel) haggregate).2 ⟨_, happly, half_more_close, rfl⟩

/-- A tenth more, on an integer. -/
def tenth_more : Modifier := { op := .Mul, value := .new 11 1 }

/-- The tenth is lost. -/
theorem tenth_lost :
    tenth_more.apply (.new 1000 0) = .ok (.new 1000 0) ∧
      (ModifierRegistry.new.register "actor" "treasury" tenth_more).aggregate "actor" "treasury"
        (.new 1000 0) = .ok (.new 1000 0) ∧
      ¬ tenth_more.Exact (.new 1000 0) (.new 1000 0) := by
  refine ⟨by decide +kernel, by decide +kernel, ?_⟩
  intro h
  have hoff := h.mul rfl
  have hbase : (1000 : Int64).toInt = 1000 := by decide
  have hfactor : (11 : Int64).toInt = 11 := by decide
  have hscale : (1 : UInt32).toNat = 1 := rfl
  norm_num [FixedPoint.value, FixedPoint.new, unit, decimal, tenth_more, hbase, hfactor, hscale]
    at hoff

end ModifierRegistry

end Scharnhorst
